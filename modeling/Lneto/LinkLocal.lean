import Lneto.ArpHandler
import Lneto.Ipv4Prefix
import Lneto.Regions

/-!
The claim of an IPv4 link-local address: probes, announcements and defence,
driven by a clock and by the ARP frames that are received. Times are counted in
nanoseconds.
-/
namespace Lneto.LinkLocal

open AddressCache (Mac6)
open ArpHandler (Err typeIPv4 opRequest)
open Ipv4Prefix CircularBuffers Bool

def second : ℤ := 1000000000

def probeWait : ℤ := second
def probeNum : ℕ := 3
def probeMin : ℤ := second
def probeMax : ℤ := 2 * second
def announceWait : ℤ := 2 * second
def announceNum : ℕ := 2
def announceInterval : ℤ := 2 * second
def maxConflicts : ℕ := 10
def rateLimitInterval : ℤ := 60 * second
def defendInterval : ℤ := 10 * second
def arpIPv4Size : ℕ := 28

inductive State where
  | invalid
  | waiting
  | probing
  | announcing
  | bound
  | rateLimited
deriving DecidableEq, Repr

structure Config where
  hardwareAddr : Mac6
  /-- A clock is given. -/
  now : Bool := true
  seed : UInt64
  firstCandidate : UInt32 := 0
deriving DecidableEq, Repr

structure Handler where
  nextActionAt : ℤ := 0
  lastDefend : ℤ := 0
  prng : UInt32 := 0
  candidate : UInt32 := 0
  firstCandidate : UInt32 := 0
  hw : Mac6 := {}
  state : State := .invalid
  probesSent : ℕ := 0
  announceSent : ℕ := 0
  conflicts : ℕ := 0
  haveFirst : Bool := false
  defendDue : Bool := false
  defendValid : Bool := false
deriving DecidableEq, Repr

def prand32 (seed : UInt32) : UInt32 :=
  let seed := seed ^^^ (seed <<< 13)
  let seed := seed ^^^ (seed >>> 17)
  seed ^^^ (seed <<< 5)

def randDelay (r : UInt32) (max : ℤ) : ℤ := r.toNat % (max + 1)

def randInterval (r : UInt32) (min max : ℤ) : ℤ :=
  if max - min ≤ 0 then min else min + r.toNat % (max - min + 1)

def linkLocalNet : Prefix4 := .ofAddr 0xa9fe0000 16

/-- Neither the first nor the last 256 addresses are used. -/
def usable (addr : UInt32) : Bool :=
  linkLocalNet.containsBits addr && 1 ≤ addr.toNat / 256 % 256 && addr.toNat / 256 % 256 ≤ 254

def senderHW (frame : Bytes) : Bytes := ArpHandler.Frame.part frame 8 6
def senderProto (frame : Bytes) : UInt32 := addr2bits (ArpHandler.Frame.part frame 14 4)
def targetProto (frame : Bytes) : UInt32 := addr2bits (ArpHandler.Frame.part frame 24 4)

namespace Handler

def prand (h : Handler) : Handler := { h with prng := prand32 h.prng }

def selectCandidate (h : Handler) : Handler :=
  if h.haveFirst then { h with haveFirst := false, candidate := h.firstCandidate }
  else
    let low := 256 + h.prand.prng.toNat % 65024
    { h.prand with candidate := addr2bits [169, 254, UInt8.ofNat (low / 256), UInt8.ofNat low] }

def beginProbing (h : Handler) (now delay : ℤ) : Handler :=
  { (if h.candidate = 0 then h.selectCandidate else h) with
    state := .waiting
    probesSent := 0
    announceSent := 0
    defendDue := false
    defendValid := false
    nextActionAt := now + delay }

def restart (h : Handler) (now : ℤ) : Handler :=
  h.prand.beginProbing now (randDelay h.prand.prng probeWait)

def reset (h : Handler) (cfg : Config) (now : ℤ) : Handler × Option Err :=
  if cfg.now = false ∨ cfg.hardwareAddr.bytes.all (· == 0) = true ∨ cfg.seed = 0 then
    (h, some .invalidConfig)
  else
    let fold := cfg.seed.toUInt32 ^^^ (cfg.seed >>> 32).toUInt32
    (({ prng := if fold = 0 then 1 else fold
        hw := cfg.hardwareAddr
        firstCandidate := cfg.firstCandidate
        haveFirst := usable cfg.firstCandidate } : Handler).restart now, none)

/-- The address is reported in the last state only. -/
def addr (h : Handler) : UInt32 × Bool := (h.candidate, h.state == .bound)

def onConflict (h : Handler) (now : ℤ) : Handler :=
  let h := { h with conflicts := if h.conflicts < 255 then h.conflicts + 1 else h.conflicts }
  let h := h.selectCandidate
  if maxConflicts < h.conflicts then
    { h with state := .rateLimited, nextActionAt := now + rateLimitInterval }
  else h.restart now

def onDefend (h : Handler) (now : ℤ) : Handler :=
  if h.defendValid = false ∨ defendInterval ≤ now - h.lastDefend then
    { h with lastDefend := now, defendValid := true, defendDue := true }
  else h.onConflict now

/-- What is due: the handler moves on, with the sender address of the frame to be sent. -/
def act (h : Handler) (now : ℤ) : Handler × Option UInt32 :=
  match h.state with
  | .waiting | .probing =>
    if now < h.nextActionAt then (h, none)
    else if h.probesSent < probeNum then
      let h := { h with state := .probing, probesSent := h.probesSent + 1 }
      if h.probesSent < probeNum then
        ({ h.prand with nextActionAt := now + randInterval h.prand.prng probeMin probeMax }, some 0)
      else ({ h with nextActionAt := now + announceWait }, some 0)
    else
      ({ h with state := .announcing, announceSent := 1, nextActionAt := now + announceInterval },
        some h.candidate)
  | .announcing =>
    if now < h.nextActionAt then (h, none)
    else
      let h := { h with announceSent := h.announceSent + 1 }
      if announceNum ≤ h.announceSent then ({ h with state := .bound }, some h.candidate)
      else ({ h with nextActionAt := now + announceInterval }, some h.candidate)
  | .bound =>
    if h.defendDue then ({ h with defendDue := false }, some h.candidate) else (h, none)
  | .rateLimited => if now < h.nextActionAt then (h, none) else (h.restart now, none)
  | .invalid => (h, none)

def putARP (h : Handler) (sender : UInt32) : Bytes :=
  [0, 1, 8, 0, 6, 4, 0, 1] ++ h.hw.bytes ++ be32 sender ++ List.replicate 6 0 ++ be32 h.candidate

/-- The frame is broadcast if there is a link header before it. -/
def encapsulate (h : Handler) (now : ℤ) (carrierData : Bytes) (offsetToFrame : ℤ) :
    Handler × Bytes × Except Err ℕ :=
  if offsetToFrame < 0 ∨ carrierData.length - offsetToFrame < arpIPv4Size then
    (h, carrierData, .error .shortBuffer)
  else
    match h.act now with
    | (h, none) => (h, carrierData, .ok 0)
    | (h, some sender) =>
      let buf := blit carrierData offsetToFrame.toNat (h.putARP sender)
      let buf :=
        if 14 ≤ offsetToFrame then
          blit buf (offsetToFrame.toNat - 14) (List.replicate 6 255)
        else buf
      (h, buf, .ok arpIPv4Size)

/-- Until the address is claimed any use of it is a conflict, afterwards the use by another
host. -/
def inspect (h : Handler) (now : ℤ) (frame : Bytes) : Handler :=
  match h.state with
  | .waiting | .probing =>
    if senderProto frame = h.candidate ∨ ArpHandler.Frame.operation frame = opRequest ∧
        senderProto frame = 0 ∧ targetProto frame = h.candidate ∧
        senderHW frame ≠ h.hw.bytes then
      h.onConflict now
    else h
  | .announcing | .bound =>
    if senderProto frame = h.candidate ∧ senderHW frame ≠ h.hw.bytes then h.onDefend now else h
  | .invalid | .rateLimited => h

def demux (h : Handler) (now : ℤ) (frame : Bytes) : Handler × Option Err :=
  if h.state = .invalid then (h, none)
  else if frame.length < arpIPv4Size then (h, some .truncatedFrame)
  else
    match ArpHandler.Frame.validateSize frame with
    | some err => (h, some err)
    | none =>
      if ArpHandler.Frame.prototype frame ≠ typeIPv4 ∨ ArpHandler.Frame.protolen frame ≠ 4 then
        (h, none)
      else (h.inspect now frame, none)

end Handler

open Handler

theorem usable_range {addr : UInt32} (h : usable addr) :
    0xa9fe0100 ≤ addr.toNat ∧ addr.toNat ≤ 0xa9fefeff := by
  rw [usable, and_eq_true, and_eq_true, decide_eq_true_eq, decide_eq_true_eq] at h
  obtain ⟨⟨hnet, hlow⟩, hhigh⟩ := h
  have hin := (Prefix4.containsBits_iff rfl addr).1 hnet
  have hnetwork : linkLocalNet.network = 0xa9fe0000 := by decide +kernel
  have hbroadcast : linkLocalNet.broadcast = 0xa9feffff := by decide +kernel
  omega

theorem usable_low {low : ℕ} (h : 256 ≤ low) (hlt : low < 65280) :
    usable (addr2bits [169, 254, UInt8.ofNat (low / 256), UInt8.ofNat low]) := by
  have hval : (addr2bits [169, 254, UInt8.ofNat (low / 256), UInt8.ofNat low]).toNat =
      0xa9fe0000 + low := by
    simp only [addr2bits, List.foldl_cons, List.foldl_nil, UInt8.toNat_ofNat', UInt32.toNat_ofNat']
    have h1 : (169 : UInt8).toNat = 169 := rfl
    have h2 : (254 : UInt8).toNat = 254 := rfl
    omega
  rw [usable, and_eq_true, and_eq_true, decide_eq_true_eq, decide_eq_true_eq,
    Prefix4.containsBits_iff rfl, hval]
  have hnetwork : linkLocalNet.network = 0xa9fe0000 := by decide +kernel
  have hbroadcast : linkLocalNet.broadcast = 0xa9feffff := by decide +kernel
  omega

theorem probeMin_le (r : UInt32) : second ≤ randInterval r probeMin probeMax := by
  have hspan : ¬probeMax - probeMin ≤ 0 := by decide
  have hmod : (0 : ℤ) ≤ r.toNat % (probeMax - probeMin + 1) := Int.emod_nonneg _ (by decide)
  have hmin : probeMin = second := rfl
  rw [randInterval, if_neg hspan]
  omega

/-- Every candidate, and the one in reserve, may be used. -/
structure Choosing (h : Handler) : Prop where
  candidate : usable h.candidate = true
  first : h.haveFirst = true → usable h.firstCandidate = true

theorem choosing_selectCandidate {h : Handler} (hfirst : h.haveFirst → usable h.firstCandidate) :
    Choosing h.selectCandidate := by
  unfold selectCandidate
  by_cases hhave : h.haveFirst
  · rw [if_pos hhave]
    exact ⟨hfirst hhave, nofun⟩
  rw [if_neg hhave]
  have hmod := Nat.mod_lt h.prand.prng.toNat (by decide : 0 < 65024)
  exact ⟨usable_low (by omega) (by omega), fun hc => absurd hc hhave⟩

def SameClaim (h h' : Handler) : Prop :=
  h'.candidate = h.candidate ∧ h'.hw = h.hw ∧ h'.haveFirst = h.haveFirst ∧
    h'.firstCandidate = h.firstCandidate

theorem SameClaim.refl (h : Handler) : SameClaim h h := ⟨rfl, rfl, rfl, rfl⟩

structure Begun (h h' : Handler) : Prop where
  state : h'.state = .waiting
  probes : h'.probesSent = 0
  choosing : Choosing h'
  hw : h'.hw = h.hw
  fresh : h' ≠ h

theorem choosing_restart {h : Handler} (hfirst : h.haveFirst → usable h.firstCandidate)
    (hcand : h.candidate = 0 ∨ usable h.candidate) (now : ℤ) : Choosing (h.restart now) := by
  unfold restart beginProbing
  by_cases hzero : h.prand.candidate = 0
  · rw [if_pos hzero]
    have hsel := choosing_selectCandidate (h := h.prand) hfirst
    exact ⟨hsel.candidate, hsel.first⟩
  · rw [if_neg hzero]
    exact ⟨hcand.resolve_left hzero, hfirst⟩

theorem selectCandidate_keeps (h : Handler) :
    h.selectCandidate.hw = h.hw ∧ h.selectCandidate.conflicts = h.conflicts := by
  unfold selectCandidate
  split_ifs
  all_goals exact ⟨rfl, rfl⟩

theorem restart_keeps (h : Handler) (now : ℤ) :
    (h.restart now).hw = h.hw ∧ (h.restart now).conflicts = h.conflicts := by
  unfold restart beginProbing
  split_ifs
  · exact selectCandidate_keeps h.prand
  · exact ⟨rfl, rfl⟩

/-- A conflict leads to another candidate, at once or after a while. -/
theorem onConflict_cases {h : Handler} (hc : Choosing h) (now : ℤ) : Begun h (h.onConflict now) ∨
      (h.onConflict now).state = .rateLimited ∧ Choosing (h.onConflict now) ∧
        (h.onConflict now).hw = h.hw := by
  unfold onConflict
  have hsel := choosing_selectCandidate
    (h := { h with conflicts := if h.conflicts < 255 then h.conflicts + 1 else h.conflicts })
    hc.first
  generalize hg : ({ h with
    conflicts := if h.conflicts < 255 then h.conflicts + 1 else h.conflicts } : Handler) = g
    at hsel ⊢
  have hcount : g.conflicts = if h.conflicts < 255 then h.conflicts + 1 else h.conflicts := by
    rw [← hg]
  have hsame : g.hw = h.hw := by rw [← hg]
  by_cases hmax : maxConflicts < g.selectCandidate.conflicts
  · simp only [if_pos hmax]
    exact .inr ⟨trivial, ⟨hsel.candidate, hsel.first⟩, (selectCandidate_keeps g).1.trans hsame⟩
  simp only [if_neg hmax]
  refine .inl ⟨rfl, rfl, choosing_restart hsel.first (.inr hsel.candidate) now, ?_, ?_⟩
  · rw [(restart_keeps _ now).1, (selectCandidate_keeps g).1, hsame]
  intro heq
  have hnum := congrArg conflicts heq
  rw [(restart_keeps _ now).2, (selectCandidate_keeps g).2] at hnum
  rw [(selectCandidate_keeps g).2] at hmax
  rw [maxConflicts] at hmax
  split_ifs at hcount
  · omega
  · omega

inductive Acts (h : Handler) (now : ℤ) : Handler → Option UInt32 → Prop where
  | idle : Acts h now h none
  | probe {h' : Handler} (hstate : h.state = .waiting ∨ h.state = .probing)
      (hdue : h.nextActionAt ≤ now) (hmore : h.probesSent < probeNum)
      (hstate' : h'.state = .probing) (hsame : SameClaim h h')
      (hcount : h'.probesSent = h.probesSent + 1) (hnext : now + second ≤ h'.nextActionAt)
      (hwait : h'.probesSent = probeNum → h'.nextActionAt = now + announceWait) :
      Acts h now h' (some 0)
  | claim (hstate : h.state = .waiting ∨ h.state = .probing) (hdue : h.nextActionAt ≤ now)
      (hdone : probeNum ≤ h.probesSent) :
      Acts h now { h with state := .announcing, announceSent := 1
                          nextActionAt := now + announceInterval } (some h.candidate)
  | announce (hstate : h.state = .announcing) (hdue : h.nextActionAt ≤ now) :
      Acts h now
        (if announceNum ≤ h.announceSent + 1 then
          { h with announceSent := h.announceSent + 1, state := .bound }
        else { h with announceSent := h.announceSent + 1, nextActionAt := now + announceInterval })
        (some h.candidate)
  | defend (hstate : h.state = .bound) : Acts h now { h with defendDue := false } (some h.candidate)
  | resume (hstate : h.state = .rateLimited) : Acts h now (h.restart now) none

theorem acts_probing {h : Handler} {now : ℤ} (hst : h.state = .waiting ∨ h.state = .probing)
    (hdue : h.nextActionAt ≤ now) (hmore : h.probesSent < probeNum) :
    Acts h now (h.act now).1 (h.act now).2 := by
  have hact : h.act now =
      if h.probesSent + 1 < probeNum then
        ({ h with state := .probing, probesSent := h.probesSent + 1, prng := h.prand.prng
                  nextActionAt := now + randInterval h.prand.prng probeMin probeMax }, some 0)
      else
        ({ h with state := .probing, probesSent := h.probesSent + 1
                  nextActionAt := now + announceWait }, some 0) := by
    unfold act
    rcases hst with hst | hst
    all_goals
      simp only [hst, if_neg (not_lt.2 hdue), if_pos hmore]
      rfl
  rw [hact]
  have hmin := probeMin_le h.prand.prng
  have hwait : second ≤ announceWait := by decide
  by_cases hlast : h.probesSent + 1 < probeNum
  · rw [if_pos hlast]
    refine .probe hst hdue hmore rfl ⟨rfl, rfl, rfl, rfl⟩ rfl ?_ ?_
    · simp only
      omega
    · simp only
      omega
  rw [if_neg hlast]
  refine .probe hst hdue hmore rfl ⟨rfl, rfl, rfl, rfl⟩ rfl ?_ (fun _ => rfl)
  simp only
  omega

theorem act_acts (h : Handler) (now : ℤ) : Acts h now (h.act now).1 (h.act now).2 := by
  by_cases hprobing : h.state = .waiting ∨ h.state = .probing
  · by_cases hdue : now < h.nextActionAt
    · have hact : h.act now = (h, none) := by
        unfold act
        rcases hprobing with hst | hst
        · simp only [hst, if_pos hdue]
        · simp only [hst, if_pos hdue]
      rw [hact]
      exact .idle
    by_cases hmore : h.probesSent < probeNum
    · exact acts_probing hprobing (not_lt.1 hdue) hmore
    have hact : h.act now =
        ({ h with state := .announcing, announceSent := 1
                  nextActionAt := now + announceInterval }, some h.candidate) := by
      unfold act
      rcases hprobing with hst | hst
      · simp only [hst, if_neg hdue, if_neg hmore]
      · simp only [hst, if_neg hdue, if_neg hmore]
    rw [hact]
    exact .claim hprobing (not_lt.1 hdue) (not_lt.1 hmore)
  cases hst : h.state with
  | waiting => exact absurd (.inl hst) hprobing
  | probing => exact absurd (.inr hst) hprobing
  | invalid =>
    have hact : h.act now = (h, none) := by simp only [act, hst]
    rw [hact]
    exact .idle
  | announcing =>
    by_cases hdue : now < h.nextActionAt
    · have hact : h.act now = (h, none) := by simp only [act, hst, if_pos hdue]
      rw [hact]
      exact .idle
    have hact : h.act now =
        (if announceNum ≤ h.announceSent + 1 then
          { h with announceSent := h.announceSent + 1, state := .bound }
        else { h with announceSent := h.announceSent + 1
                      nextActionAt := now + announceInterval }, some h.candidate) := by
      simp only [act, hst, if_neg hdue]
      split_ifs
      · rfl
      · rfl
    rw [hact]
    exact .announce hst (not_lt.1 hdue)
  | bound =>
    by_cases hdefend : h.defendDue
    · have hact : h.act now = ({ h with defendDue := false }, some h.candidate) := by
        simp only [act, hst, if_pos hdefend]
      rw [hact]
      exact .defend hst
    have hact : h.act now = (h, none) := by simp only [act, hst, if_neg hdefend]
    rw [hact]
    exact .idle
  | rateLimited =>
  by_cases hdue : now < h.nextActionAt
  · have hact : h.act now = (h, none) := by simp only [act, hst, if_pos hdue]
    rw [hact]
    exact .idle
  have hact : h.act now = (h.restart now, none) := by simp only [act, hst, if_neg hdue]
  rw [hact]
  exact .resume hst

end Lneto.LinkLocal
