import Lneto.LinkLocal

/-!
Safe claims of link-local addresses. Beside the handler runs the record of what
it sent and received since it last began to probe. With a clock that never goes
back, and hardware addresses of six bytes, an address is used only after three probes and a
quiet wait.
-/
namespace Lneto.LinkLocalClaims

open AddressCache (Mac6)
open ArpHandler (Err typeIPv4 opRequest)
open Ipv4Prefix LinkLocal GuardedRuns CircularBuffers Handler List
open ArpHandler.Frame hiding senderProto targetProto senderHW

variable {h : Handler} {hw : Mac6}

inductive Event where
  | emitted (time : ℤ) (frame : Bytes)
  | demuxed (time : ℤ) (frame : Bytes)
deriving DecidableEq, Repr

def Event.time : Event → ℤ
  | .emitted time _ => time
  | .demuxed time _ => time

inductive Op where
  | encapsulate (now : ℤ) (carrierData : Bytes) (offsetToFrame : ℤ)
  | demux (now : ℤ) (frame : Bytes)
deriving DecidableEq, Repr

def Op.now : Op → ℤ
  | .encapsulate now _ _ => now
  | .demux now _ => now

/-- The handler, and what happened since it last began to probe, the latest first. -/
structure Watched where
  h : Handler
  clock : ℤ
  since : List Event := []
deriving DecidableEq, Repr

/-- A call that comes to the first state, or changes anything in it, has begun to probe. -/
def Began (h h' : Handler) : Prop := h'.state = .waiting ∧ h' ≠ h

instance (h h' : Handler) : Decidable (Began h h') := inferInstanceAs (Decidable (_ ∧ _))

def Watched.note (w : Watched) (now : ℤ) (h : Handler) (events : List Event) : Watched where
  h := h
  clock := now
  since := if Began w.h h then [] else events ++ w.since

def sent (buf : Bytes) (offsetToFrame : ℤ) : Except Err ℕ → Option Bytes
  | .ok (n + 1) => some (Regions.read buf ⟨offsetToFrame.toNat, n + 1⟩)
  | _ => none

def step (w : Watched) : Op → Except Empty Watched
  | .encapsulate now carrierData offsetToFrame =>
    let (h, buf, n) := w.h.encapsulate now carrierData offsetToFrame
    .ok (w.note now h ((sent buf offsetToFrame n).toList.map (.emitted now)))
  | .demux now frame => .ok (w.note now (w.h.demux now frame).1 [.demuxed now frame])

def Ticks (w : Watched) (op : Op) : Prop := w.clock ≤ op.now

instance (w : Watched) (op : Op) : Decidable (Ticks w op) := Int.decLe _ _

def IsArp4 (frame : Bytes) : Prop :=
  arpIPv4Size ≤ frame.length ∧ ArpHandler.Frame.validateSize frame = none ∧
    ArpHandler.Frame.prototype frame = typeIPv4 ∧ ArpHandler.Frame.protolen frame = 4

instance (frame : Bytes) : Decidable (IsArp4 frame) := inferInstanceAs (Decidable (_ ∧ _))

/-- The clock does not go back, and hardware addresses have the length that `Sender4` assumes. -/
def Plain (w : Watched) (op : Op) : Prop :=
  Ticks w op ∧ match op with
    | .demux _ frame => IsArp4 frame → hwlen frame = 6
    | .encapsulate _ _ _ => True

instance (w : Watched) (op : Op) : Decidable (Plain w op) :=
  match op with
  | .demux _ _ => inferInstanceAs (Decidable (_ ∧ (_ → _)))
  | .encapsulate _ _ _ => inferInstanceAs (Decidable (_ ∧ True))

/-- A frame with the address as its sender, or a probe for it from another hardware address, where
the frame's own lengths say where they stand. -/
def Conflicts (addr : UInt32) (hw : Mac6) (frame : Bytes) : Prop :=
  IsArp4 frame ∧ (addr2bits (ArpHandler.Frame.senderProto frame) = addr ∨
    ArpHandler.Frame.operation frame = opRequest ∧
      addr2bits (ArpHandler.Frame.senderProto frame) = 0 ∧
      addr2bits (ArpHandler.Frame.targetProto frame) = addr ∧
      ArpHandler.Frame.senderHW frame ≠ hw.bytes)

instance (addr : UInt32) (hw : Mac6) (frame : Bytes) : Decidable (Conflicts addr hw frame) :=
  inferInstanceAs (Decidable (_ ∧ _))

/-- With six bytes of hardware address they stand where they are read. -/
theorem Conflicts.read {addr : UInt32} {frame : Bytes} (h : Conflicts addr hw frame)
    (hsix : IsArp4 frame → hwlen frame = 6) :
    senderProto frame = addr ∨ ArpHandler.Frame.operation frame = opRequest ∧
      senderProto frame = 0 ∧ targetProto frame = addr ∧ senderHW frame ≠ hw.bytes := by
  have hlen := hsix h.1
  have hconf := h.2
  rwa [ArpHandler.Frame.senderProto, ArpHandler.Frame.targetProto, ArpHandler.Frame.senderHW, hlen,
    h.1.2.2.2] at hconf

def emissions (events : List Event) : List (ℤ × UInt32 × UInt32) :=
  events.filterMap fun
    | .emitted time frame => some (time, senderProto frame, targetProto frame)
    | .demuxed _ _ => none

/-- Three probes at least a second apart, two seconds from the last one to `ready`, and no
conflict. -/
def Probed (addr : UInt32) (hw : Mac6) (events : List Event) (ready : ℤ) : Prop :=
  ∃ t₁ t₂ t₃, emissions events = [(t₃, 0, addr), (t₂, 0, addr), (t₁, 0, addr)] ∧
    t₁ + second ≤ t₂ ∧ t₂ + second ≤ t₃ ∧ t₃ + 2 * second ≤ ready ∧
    ∀ time frame, .demuxed time frame ∈ events → ¬Conflicts addr hw frame

/-- After the probes two announcements at least two seconds apart, and no probe since. -/
def Claimed (addr : UInt32) (hw : Mac6) (events : List Event) : Prop :=
  ∃ later between quiet a₁ a₂ f₁ f₂,
    events = later ++ .emitted a₂ f₂ :: (between ++ .emitted a₁ f₁ :: quiet) ∧
      Probed addr hw quiet a₁ ∧
      (senderProto f₁, targetProto f₁) = (addr, addr) ∧
      (senderProto f₂, targetProto f₂) = (addr, addr) ∧
      a₁ + 2 * second ≤ a₂ ∧ emissions between = [] ∧ ∀ e ∈ emissions later, e.2.1 = addr

theorem senderProto_putARP (h : Handler) (sender : UInt32) :
    senderProto (h.putARP sender) = sender := by
  have hpart : part (h.putARP sender) 14 4 = be32 sender := by
    have hfront : ([0, 1, 8, 0, 6, 4, 0, 1] ++ h.hw.bytes : Bytes).length = 14 := by
      rw [length_append, h.hw.six]
      rfl
    rw [part, putARP, append_assoc, append_assoc,
      drop_left' hfront, take_left' (length_be32 sender)]
  rw [senderProto, hpart, addr2bits_be32]

theorem targetProto_putARP (h : Handler) (sender : UInt32) :
    targetProto (h.putARP sender) = h.candidate := by
  have hpart : part (h.putARP sender) 24 4 = be32 h.candidate := by
    have hfront : ([0, 1, 8, 0, 6, 4, 0, 1] ++ h.hw.bytes ++ be32 sender ++
        replicate 6 0 : Bytes).length = 24 := by
      simp only [length_append, h.hw.six, length_be32, length_replicate, length_cons, length_nil]
    rw [part, putARP, drop_left' hfront, take_of_length_le (length_be32 _).le]
  rw [targetProto, hpart, addr2bits_be32]

theorem length_putARP (h : Handler) (sender : UInt32) : (h.putARP sender).length = arpIPv4Size := by
  simp only [putARP, length_append, h.hw.six, length_be32, length_replicate,
    length_cons, length_nil, arpIPv4Size]

/-- A call moves the handler on and leaves the frame that is due in the buffer, or does nothing. -/
theorem encapsulate_cases (h : Handler) (now : ℤ) (carrierData : Bytes) (offset : ℤ) :
    let r := h.encapsulate now carrierData offset
    r.1 = h ∧ sent r.2.1 offset r.2.2 = none ∨ r.1 = (h.act now).1 ∧
        sent r.2.1 offset r.2.2 = (h.act now).2.map fun sender => (h.act now).1.putARP sender := by
  unfold encapsulate
  by_cases hshort : offset < 0 ∨ carrierData.length - offset < arpIPv4Size
  · rw [if_pos hshort]
    exact .inl ⟨rfl, rfl⟩
  rw [if_neg hshort]
  refine .inr ?_
  rcases h.act now with ⟨h', _ | sender⟩
  · exact ⟨rfl, rfl⟩
  refine ⟨rfl, ?_⟩
  have hlen := length_putARP h' sender
  have hroom : offset.toNat + (h'.putARP sender).length ≤ carrierData.length := by
    rw [hlen]
    omega
  have hread : Regions.read (blit carrierData offset.toNat (h'.putARP sender))
      ⟨offset.toNat, 28⟩ = h'.putARP sender := by
    have hsame := Regions.read_blit_same hroom
    rwa [hlen] at hsame
  simp only [sent, arpIPv4Size, Option.map_some]
  by_cases hlink : 14 ≤ offset
  · rw [if_pos hlink, Regions.read_blit_apart, hread]
    · rw [length_blit _ _ _ (by omega)]
      omega
    refine .inr (.inr (.inr ?_))
    simp only [length_replicate]
    omega
  · rw [if_neg hlink, hread]

/-- So many probes were sent, and the next action waits for them. -/
structure Probing (addr : UInt32) (hw : Mac6) (count : ℕ) (next : ℤ) (events : List Event)
    (times : List ℤ) : Prop where
  probes : emissions events = times.map fun t => (t, 0, addr)
  count_eq : times.length = count
  spaced : times.Pairwise fun later earlier => earlier + second ≤ later
  due : ∀ t ∈ times, t + second ≤ next
  wait : count = probeNum → ∀ t ∈ times, t + announceWait ≤ next
  quiet : ∀ time frame, .demuxed time frame ∈ events → ¬Conflicts addr hw frame

theorem Probing.probe {addr : UInt32} {count : ℕ} {next next' now : ℤ} {events : List Event}
    {times : List ℤ} (h : Probing addr hw count next events times) (hdue : next ≤ now)
    (hnext : now + second ≤ next') (hwait : count + 1 = probeNum → next' = now + announceWait)
    {frame : Bytes} (hsender : senderProto frame = 0) (htarget : targetProto frame = addr) :
    Probing addr hw (count + 1) next' (.emitted now frame :: events) (now :: times) := by
  have hsecond : 0 ≤ second := by decide
  have hearlier : ∀ t ∈ times, t + second ≤ now := fun t ht => (h.due t ht).trans hdue
  refine ⟨?_, by rw [length_cons, h.count_eq], pairwise_cons.2 ⟨hearlier, h.spaced⟩, ?_, ?_, ?_⟩
  · rw [map_cons, ← h.probes, ← hsender, ← htarget]
    rfl
  · intro t ht
    rcases mem_cons.1 ht with rfl | ht
    · exact hnext
    · have hle := hearlier t ht
      omega
  · intro hcount t ht
    rw [hwait hcount]
    rcases mem_cons.1 ht with rfl | ht
    · exact le_rfl
    · have hle := hearlier t ht
      omega
  intro time frame' hmem
  rcases mem_cons.1 hmem with hmem | hmem
  · cases hmem
  · exact h.quiet time frame' hmem

theorem Probing.receive {addr : UInt32} {count : ℕ} {next now : ℤ} {events : List Event}
    {times : List ℤ} (h : Probing addr hw count next events times) {frame : Bytes}
    (hquiet : ¬Conflicts addr hw frame) :
    Probing addr hw count next (.demuxed now frame :: events) times := by
  refine ⟨h.probes, h.count_eq, h.spaced, h.due, h.wait, ?_⟩
  intro time frame' hmem
  rcases mem_cons.1 hmem with hmem | hmem
  · cases hmem
    exact hquiet
  · exact h.quiet time frame' hmem

theorem Probing.probed {addr : UInt32} {next now : ℤ} {events : List Event} {times : List ℤ}
    (h : Probing addr hw probeNum next events times) (hdue : next ≤ now) :
    Probed addr hw events now := by
  obtain ⟨t₃, t₂, t₁, rfl⟩ := length_eq_three.1 h.count_eq
  have hspaced := h.spaced
  simp only [pairwise_cons, mem_cons, not_mem_nil, or_false] at hspaced
  have hwait := h.wait rfl t₃ mem_cons_self
  exact ⟨t₁, t₂, t₃, h.probes, hspaced.2.1 t₁ rfl, hspaced.1 t₂ (.inl rfl), hwait.trans hdue,
    h.quiet⟩

theorem Probed.mono {addr : UInt32} {events : List Event} {ready ready' : ℤ}
    (h : Probed addr hw events ready) (hle : ready ≤ ready') : Probed addr hw events ready' := by
  obtain ⟨t₁, t₂, t₃, hprobes, h12, h23, hready, hquiet⟩ := h
  exact ⟨t₁, t₂, t₃, hprobes, h12, h23, hready.trans hle, hquiet⟩

def Announced (addr : UInt32) (hw : Mac6) (next : ℤ) (events : List Event) : Prop :=
  ∃ between quiet a₁ f₁, events = between ++ .emitted a₁ f₁ :: quiet ∧ Probed addr hw quiet a₁ ∧
    (senderProto f₁, targetProto f₁) = (addr, addr) ∧ a₁ + 2 * second ≤ next ∧
    emissions between = []

theorem Announced.claimed {addr : UInt32} {next now : ℤ} {events : List Event}
    (h : Announced addr hw next events) (hdue : next ≤ now) {frame : Bytes}
    (hframe : (senderProto frame, targetProto frame) = (addr, addr)) :
    Claimed addr hw (.emitted now frame :: events) := by
  obtain ⟨between, quiet, a₁, f₁, rfl, hprobed, hf₁, ha₁, hbetween⟩ := h
  exact ⟨[], between, quiet, a₁, now, f₁, frame, rfl, hprobed, hf₁, hframe, ha₁.trans hdue,
    hbetween, by simp [emissions]⟩

theorem Claimed.defended {addr : UInt32} {now : ℤ} {events : List Event}
    (h : Claimed addr hw events) {frame : Bytes} (hframe : senderProto frame = addr) :
    Claimed addr hw (.emitted now frame :: events) := by
  obtain ⟨later, between, quiet, a₁, a₂, f₁, f₂, rfl, hprobed, hf₁, hf₂, ha, hbetween, hlater⟩ := h
  refine ⟨.emitted now frame :: later, between, quiet, a₁, a₂, f₁, f₂, rfl, hprobed, hf₁, hf₂, ha,
    hbetween, ?_⟩
  intro e he
  rcases mem_cons.1 he with rfl | he
  · exact hframe
  · exact hlater e he

def Stage (h : Handler) (events : List Event) : Prop :=
  match h.state with
  | .waiting | .probing =>
    h.probesSent ≤ probeNum ∧
      ∃ times, Probing h.candidate h.hw h.probesSent h.nextActionAt events times
  | .announcing => h.announceSent = 1 ∧ Announced h.candidate h.hw h.nextActionAt events
  | .bound => Claimed h.candidate h.hw events
  | .rateLimited => True
  | .invalid => False

structure Safe (hw : Mac6) (w : Watched) : Prop where
  choosing : Choosing w.h
  hw_eq : w.h.hw = hw
  past : ∀ e ∈ w.since, e.time ≤ w.clock
  stage : Stage w.h w.since

theorem stage_probing (hst : h.state = .waiting ∨ h.state = .probing) (events : List Event) :
    Stage h events ↔ h.probesSent ≤ probeNum ∧
      ∃ times, Probing h.candidate h.hw h.probesSent h.nextActionAt events times := by
  unfold Stage
  rcases hst with hst | hst
  · rw [hst]
  · rw [hst]

theorem stage_receive {events : List Event} (hstage : Stage h events) {now : ℤ} {frame : Bytes}
    (hquiet : h.state = .waiting ∨ h.state = .probing → ¬Conflicts h.candidate h.hw frame) :
    Stage h (.demuxed now frame :: events) := by
  by_cases hprobing : h.state = .waiting ∨ h.state = .probing
  · rw [stage_probing hprobing] at hstage ⊢
    obtain ⟨hle, times, htimes⟩ := hstage
    exact ⟨hle, times, htimes.receive (hquiet hprobing)⟩
  unfold Stage at hstage ⊢
  cases hst : h.state with
  | waiting => exact absurd (.inl hst) hprobing
  | probing => exact absurd (.inr hst) hprobing
  | invalid =>
    rw [hst] at hstage
    exact hstage
  | rateLimited => trivial
  | announcing =>
    rw [hst] at hstage
    obtain ⟨hcount, between, quiet, a₁, f₁, rfl, hrest⟩ := hstage
    exact ⟨hcount, .demuxed now frame :: between, quiet, a₁, f₁, rfl, hrest⟩
  | bound =>
  rw [hst] at hstage
  obtain ⟨later, between, quiet, a₁, a₂, f₁, f₂, rfl, hrest⟩ := hstage
  exact ⟨.demuxed now frame :: later, between, quiet, a₁, a₂, f₁, f₂, rfl, hrest⟩

theorem past_append {w : Watched} {now : ℤ} (hpast : ∀ e ∈ w.since, e.time ≤ w.clock)
    (htick : w.clock ≤ now) {events : List Event} (hnow : ∀ e ∈ events, e.time = now)
    (h : Handler) : ∀ e ∈ (w.note now h events).since, e.time ≤ now := by
  intro e he
  unfold Watched.note at he
  split_ifs at he
  · cases he
  rcases mem_append.1 he with he | he
  · exact (hnow e he).le
  · exact (hpast e he).trans htick

theorem Safe.begun {w : Watched} (hs : Safe hw w) (hb : Begun w.h h) (now : ℤ)
    (events : List Event) : Safe hw (w.note now h events) := by
  have hsince : (w.note now h events).since = [] := if_pos ⟨hb.state, hb.fresh⟩
  refine ⟨hb.choosing, hb.hw.trans hs.hw_eq, ?_, ?_⟩
  · rw [hsince]
    simp
  · rw [hsince]
    apply (stage_probing (.inl hb.state) []).2
    rw [hb.probes]
    exact ⟨Nat.zero_le _, [], rfl, rfl, .nil, by simp, by simp, by simp⟩

theorem Safe.goes_on {w : Watched} (hs : Safe hw w) (hsame : SameClaim w.h h) (hnot : ¬Began w.h h)
    {now : ℤ} (htick : w.clock ≤ now) {events : List Event} (hnow : ∀ e ∈ events, e.time = now)
    (hstage : Stage h (events ++ w.since)) : Safe hw (w.note now h events) := by
  obtain ⟨hcand, hhw, hfirst, haddr⟩ := hsame
  have hsince : (w.note now h events).since = events ++ w.since := if_neg hnot
  refine ⟨⟨hcand ▸ hs.choosing.candidate, ?_⟩, hhw.trans hs.hw_eq,
    past_append hs.past htick hnow h, ?_⟩
  · show h.haveFirst → usable h.firstCandidate
    rw [hfirst, haddr]
    exact hs.choosing.first
  · rw [hsince]
    exact hstage

theorem not_began {h' : Handler} (hst : h'.state ≠ .waiting) : ¬Began h h' :=
  fun hb => hst hb.1

theorem safe_acts {w : Watched} (hs : Safe hw w) {now : ℤ} (htick : w.clock ≤ now) {h' : Handler}
    {out : Option UInt32} (hacts : Acts w.h now h' out) : Safe hw (w.note now h'
      ((out.map fun sender => h'.putARP sender).toList.map (.emitted now))) := by
  have hstage := hs.stage
  have hnow : ∀ e ∈ (out.map fun sender => h'.putARP sender).toList.map (Event.emitted now),
      e.time = now := by
    intro e he
    obtain ⟨f, -, rfl⟩ := mem_map.1 he
    rfl
  cases hacts with
  | idle => exact hs.goes_on (.refl _) (fun hb => hb.2 rfl) htick hnow hstage
  | probe hst hdue hmore hstate' hsame hcount hnext hwait =>
    refine hs.goes_on hsame (not_began (by rw [hstate']; decide)) htick hnow ?_
    rw [stage_probing hst] at hstage
    obtain ⟨-, times, hprobing⟩ := hstage
    rw [stage_probing (.inr hstate'), hcount, hsame.1, hsame.2.1]
    refine ⟨hmore, now :: times, hprobing.probe hdue hnext ?_ (senderProto_putARP _ _) ?_⟩
    · rwa [hcount] at hwait
    · rw [targetProto_putARP, hsame.1]
  | claim hst hdue hdone =>
    refine hs.goes_on ?_ (not_began (by simp)) htick hnow ?_
    · exact ⟨rfl, rfl, rfl, rfl⟩
    rw [stage_probing hst] at hstage
    obtain ⟨hle, times, hprobing⟩ := hstage
    rw [le_antisymm hle hdone] at hprobing
    refine ⟨rfl, [], w.since, now, _, rfl, hprobing.probed hdue, ?_, le_rfl, rfl⟩
    rw [senderProto_putARP, targetProto_putARP]
  | announce hst hdue =>
    unfold Stage at hstage
    rw [hst] at hstage
    obtain ⟨hcount, hannounced⟩ := hstage
    have hlast : announceNum ≤ w.h.announceSent + 1 := by
      rw [hcount]
      decide
    rw [if_pos hlast] at hnow ⊢
    refine hs.goes_on ?_ (not_began (by simp)) htick hnow ?_
    · exact ⟨rfl, rfl, rfl, rfl⟩
    · refine hannounced.claimed hdue ?_
      rw [senderProto_putARP, targetProto_putARP]
  | defend hst =>
    unfold Stage at hstage
    rw [hst] at hstage
    refine hs.goes_on ?_ (not_began (by simp [hst])) htick hnow ?_
    · exact ⟨rfl, rfl, rfl, rfl⟩
    simp only [hst]
    exact hstage.defended (senderProto_putARP _ _)
  | resume hst =>
  refine hs.begun ⟨rfl, rfl, ?_, (restart_keeps w.h now).1, ?_⟩ now _
  · exact choosing_restart hs.choosing.first (.inr hs.choosing.candidate) now
  intro heq
  have hsame := congrArg state heq
  rw [hst] at hsame
  cases hsame

inductive Sees (h : Handler) (now : ℤ) (frame : Bytes) : Handler → Prop where
  | ignored (hquiet : h.state = .waiting ∨ h.state = .probing → ¬Conflicts h.candidate h.hw frame) :
      Sees h now frame h
  | conflict : Sees h now frame (h.onConflict now)
  | defended (hstate : h.state = .announcing ∨ h.state = .bound) :
      Sees h now frame { h with lastDefend := now, defendValid := true, defendDue := true }

theorem sees_onDefend (hst : h.state = .announcing ∨ h.state = .bound) (now : ℤ)
    (frame : Bytes) : Sees h now frame (h.onDefend now) := by
  unfold onDefend
  split_ifs
  · exact .defended hst
  · exact .conflict

theorem inspect_sees (h : Handler) (now : ℤ) {frame : Bytes}
    (hsix : IsArp4 frame → hwlen frame = 6) : Sees h now frame (h.inspect now frame) := by
  unfold inspect
  cases hst : h.state with
  | invalid | rateLimited => exact .ignored (by simp [hst])
  | waiting | probing =>
    simp only
    split_ifs with hc
    · exact .conflict
    · exact .ignored fun _ hconf => hc (hconf.read hsix)
  | announcing =>
    simp only
    split_ifs
    · exact sees_onDefend (.inl hst) now frame
    · exact .ignored (by simp [hst])
  | bound =>
  simp only
  split_ifs
  · exact sees_onDefend (.inr hst) now frame
  · exact .ignored (by simp [hst])

theorem demux_sees (h : Handler) (now : ℤ) {frame : Bytes}
    (hsix : IsArp4 frame → hwlen frame = 6) : Sees h now frame (h.demux now frame).1 := by
  unfold demux
  by_cases hinvalid : h.state = .invalid
  · rw [if_pos hinvalid]
    exact .ignored (by simp [hinvalid])
  by_cases hshort : frame.length < arpIPv4Size
  · rw [if_neg hinvalid, if_pos hshort]
    exact .ignored fun _ hc => absurd hc.1.1 (not_le.2 hshort)
  rw [if_neg hinvalid, if_neg hshort]
  cases hsize : validateSize frame with
  | some err =>
    refine .ignored fun _ hc => ?_
    rw [hc.1.2.1] at hsize
    cases hsize
  | none =>
  by_cases hother : prototype frame ≠ typeIPv4 ∨ protolen frame ≠ 4
  · simp only [if_pos hother]
    refine .ignored fun _ hc => ?_
    rcases hother with hother | hother
    · exact hother hc.1.2.2.1
    · exact hother hc.1.2.2.2
  · simp only [if_neg hother]
    exact inspect_sees h now hsix

theorem safe_sees {w : Watched} (hs : Safe hw w) {now : ℤ} (htick : w.clock ≤ now) {frame : Bytes}
    {h' : Handler} (hsees : Sees w.h now frame h') :
    Safe hw (w.note now h' [.demuxed now frame]) := by
  have hstage := hs.stage
  have hnow : ∀ e ∈ [Event.demuxed now frame], e.time = now := by simp [Event.time]
  cases hsees with
  | ignored hquiet =>
    refine hs.goes_on (.refl _) (fun hb => hb.2 rfl) htick hnow ?_
    exact stage_receive hstage hquiet
  | conflict =>
    rcases onConflict_cases hs.choosing now with hb | ⟨hst, hchoosing, hhw⟩
    · exact hs.begun hb now _
    refine ⟨hchoosing, hhw.trans hs.hw_eq, past_append hs.past htick hnow _, ?_⟩
    unfold Stage
    simp only [Watched.note, hst]
  | defended hst =>
  refine hs.goes_on ?_ (not_began ?_) htick hnow ?_
  · exact ⟨rfl, rfl, rfl, rfl⟩
  · rcases hst with hst | hst
    · simp [hst]
    · simp [hst]
  have hother : ¬(w.h.state = .waiting ∨ w.h.state = .probing) := by
    rcases hst with hst | hst
    all_goals simp [hst]
  exact @stage_receive w.h w.since hstage now frame fun hc => absurd hc hother

theorem step_safe (w : Watched) (op : Op) (w' : Watched) (hs : Safe hw w) (hplain : Plain w op)
    (hstep : step w op = .ok w') : Safe hw w' := by
  have htick := hplain.1
  cases op with
  | demux now frame =>
    cases hstep
    exact safe_sees hs htick (demux_sees w.h now hplain.2)
  | encapsulate now carrierData offset =>
  have hcases := encapsulate_cases w.h now carrierData offset
  rcases hcall : w.h.encapsulate now carrierData offset with ⟨h', buf, n⟩
  rw [hcall] at hcases
  simp only [step, hcall] at hstep
  cases hstep
  rcases hcases with ⟨rfl, hsent⟩ | ⟨rfl, hsent⟩
  · rw [hsent]
    exact safe_acts hs htick .idle
  · rw [hsent]
    exact safe_acts hs htick (act_acts w.h now)

theorem acts_sender {w : Watched} (hs : Safe hw w) {now : ℤ} (htick : w.clock ≤ now) {h' : Handler}
    {sender : UInt32} (hacts : Acts w.h now h' (some sender)) (hsender : sender = w.h.candidate) :
    ∃ later quiet, w.since = later ++ quiet ∧ Probed w.h.candidate w.h.hw quiet now := by
  have hstage := hs.stage
  cases hacts with
  | probe =>
    have hrange := usable_range hs.choosing.candidate
    rw [← hsender] at hrange
    exact absurd hrange.1 (by decide)
  | claim hst hdue hdone =>
    rw [stage_probing hst] at hstage
    obtain ⟨hle, times, hprobing⟩ := hstage
    rw [le_antisymm hle hdone] at hprobing
    exact ⟨[], w.since, rfl, hprobing.probed hdue⟩
  | announce hst hdue =>
    unfold Stage at hstage
    rw [hst] at hstage
    obtain ⟨-, between, quiet, a₁, f₁, hsince, hprobed, -, ha₁, -⟩ := hstage
    refine ⟨between ++ [.emitted a₁ f₁], quiet, by simp [hsince], hprobed.mono ?_⟩
    have hsecond : 0 ≤ second := by decide
    omega
  | defend hst =>
  unfold Stage at hstage
  rw [hst] at hstage
  obtain ⟨later, between, quiet, a₁, a₂, f₁, f₂, hsince, hprobed, -⟩ := hstage
  refine ⟨later ++ .emitted a₂ f₂ :: (between ++ [.emitted a₁ f₁]), quiet, by simp [hsince],
    hprobed.mono ?_⟩
  have hpast := hs.past (.emitted a₁ f₁) (by simp [hsince])
  exact hpast.trans htick

/-- With a clock that never goes back and hardware addresses of six bytes, a reported address is
link-local and was claimed after three probes, a quiet wait and two announcements, and no frame
uses the candidate before. -/
theorem ticking_runs_claim (h₀ : Handler) (cfg : Config) (t₀ : ℤ)
    (hreset : (h₀.reset cfg t₀).2 = none) (ops : List Op)
    (hplain : Guarded step Plain { h := (h₀.reset cfg t₀).1, clock := t₀ } ops) (w : Watched)
    (hrun : exec step { h := (h₀.reset cfg t₀).1, clock := t₀ } ops = .ok w) :
    (∀ addr, w.h.addr = (addr, true) →
        (0xa9fe0100 ≤ addr.toNat ∧ addr.toNat ≤ 0xa9fefeff) ∧
          Claimed addr cfg.hardwareAddr w.since) ∧
      ∀ now carrierData offset h' buf n frame, w.clock ≤ now →
        w.h.encapsulate now carrierData offset = (h', buf, n) →
        sent buf offset n = some frame → senderProto frame = w.h.candidate →
          ∃ later quiet, w.since = later ++ quiet ∧
            Probed w.h.candidate cfg.hardwareAddr quiet now := by
  have hstart : Safe cfg.hardwareAddr { h := (h₀.reset cfg t₀).1, clock := t₀ } := by
    unfold reset at hreset ⊢
    split_ifs at hreset ⊢
    refine ⟨choosing_restart id (.inl rfl) t₀, (restart_keeps _ t₀).1, by simp, ?_⟩
    exact ⟨Nat.zero_le _, [], rfl, rfl, .nil, by simp, by simp, by simp⟩
  have hend := exec_invariant step_safe ops _ w hstart hplain hrun
  constructor
  · intro addr haddr
    obtain ⟨rfl, hstate⟩ := Prod.mk.inj haddr
    have hstage := hend.stage
    unfold Stage at hstage
    rw [beq_iff_eq.1 hstate, hend.hw_eq] at hstage
    exact ⟨usable_range hend.choosing.candidate, hstage⟩
  intro now carrierData offset h' buf n frame htick hcall hsent hsender
  have hcases := encapsulate_cases w.h now carrierData offset
  rw [hcall] at hcases
  rcases hcases with ⟨-, hnone⟩ | ⟨-, hsome⟩
  · rw [hnone] at hsent
    cases hsent
  rw [hsome] at hsent
  obtain ⟨sender, hact, rfl⟩ := Option.map_eq_some_iff.1 hsent
  have hacts := act_acts w.h now
  rw [hact] at hacts
  rw [senderProto_putARP] at hsender
  rw [← hend.hw_eq]
  exact acts_sender hend htick hacts hsender

def oneHost : Config where
  hardwareAddr := .ofBytes [2, 0, 0, 0, 0, 1]
  seed := 1

def poll (seconds : ℤ) : Op := .encapsulate (seconds * second) (List.replicate 42 0) 14

/-- An ARP reply with so many bytes of hardware address. -/
def reply (hwlen : UInt8) (sender : UInt32) : Bytes :=
  [0, 1, 8, 0, hwlen, 4, 0, 2] ++ replicate hwlen.toNat 9 ++ be32 sender ++
    replicate (hwlen.toNat + 4) 0

/-- Another host speaks in the quiet wait. -/
def polled (frame : Bytes) : List Op :=
  [poll 1, poll 3, poll 5, .demux (6 * second) frame, poll 7, poll 9]

theorem ticking_runs_claim_other :
    ∃ w, exec step { h := (({} : Handler).reset oneHost 0).1, clock := 0 }
        (polled (reply 6 0xa9fe0101)) = .ok w ∧ w.h.state = .bound ∧
      Claimed w.h.candidate oneHost.hardwareAddr w.since := by
  obtain ⟨w, hrun, hbound⟩ : ∃ w, exec step { h := (({} : Handler).reset oneHost 0).1, clock := 0 }
      (polled (reply 6 0xa9fe0101)) = .ok w ∧ w.h.state = .bound := exists_exec (by decide +kernel)
  have hclaim := (ticking_runs_claim {} oneHost 0 (by decide +kernel)
    (polled (reply 6 0xa9fe0101)) (by decide +kernel) w hrun).1 w.h.candidate
  exact ⟨w, hrun, hbound, (hclaim (by rw [addr, hbound]; rfl)).2⟩

/-- A frame with eight bytes of hardware address and the candidate as its sender is overlooked. -/
theorem claims_over_conflict :
    let h := (({} : Handler).reset oneHost 0).1
    Guarded step Ticks { h, clock := 0 } (polled (reply 8 h.candidate)) ∧
      ∃ w, exec step { h, clock := 0 } (polled (reply 8 h.candidate)) = .ok w ∧
        w.h.addr = (h.candidate, true) ∧
        Event.demuxed (6 * second) (reply 8 h.candidate) ∈ w.since ∧
        Conflicts h.candidate oneHost.hardwareAddr (reply 8 h.candidate) :=
  ⟨by decide +kernel, exists_exec (by decide +kernel)⟩

end Lneto.LinkLocalClaims
