import Lneto.DhcpClient

/-!
One offer per exchange. Beside the client run the offer it locked in on and the
acknowledgement that bound it. While other messages repeat what the client
knows, its terms are those of the two.
-/
namespace Lneto.DhcpOffers

open Ipv4Prefix DhcpFrame DhcpClient GuardedRuns Client

variable {client : Client} {f : Frame}

inductive ClientOp where
  | demux (buf : Bytes)
  | encapsulate (room : ℕ)
deriving DecidableEq, Repr

structure Exchange where
  client : Client
  offer : Option Frame := none
  ack : Option Frame := none
deriving DecidableEq, Repr

variable {x : Exchange}

def revise (f : Frame) (t : Terms) : Terms :=
  (forEachOption (fun t opt data => (setTerm t opt data, none)) t f.options).1

/-- The message is recorded if it locked in the offer or bound the client. -/
def Exchange.note (x : Exchange) (client : Client) (f : Frame) : Exchange where
  client := client
  offer := if x.client.offer.valid = false ∧ client.offer.valid = true then some f else x.offer
  ack := if x.client.state ≠ .bound ∧ client.state = .bound then some f else x.ack

def step (x : Exchange) : ClientOp → Except Empty Exchange
  | .demux buf =>
    match Frame.ofBytes buf with
    | .error _ => .ok { x with client := (x.client.demux buf).1 }
    | .ok f => .ok (x.note (x.client.demux buf).1 f)
  | .encapsulate room => .ok { x with client := (x.client.encapsulate room).1 }

def Read (client : Client) (f : Frame) : Prop :=
  f.xid = client.currentXID ∧ f.cookie = magicCookie ∧
    (Client.getMessageType f.options = msgOffer ∨ Client.getMessageType f.options = msgAck)

instance (client : Client) (f : Frame) : Decidable (Read client f) :=
  inferInstanceAs (Decidable (_ ∧ _))

def Sound (f : Frame) : Prop :=
  (forEachOption (fun t opt data => (setTerm t opt data, none)) {} f.options).2 = none

instance (f : Frame) : Decidable (Sound f) := inferInstanceAs (Decidable (_ = _))

/-- The first offer names its server, the acknowledgement comes from it, and the rest repeats
what is known. -/
def Consistent (client : Client) (f : Frame) : Prop :=
  if Sound f ∧ client.state = .selecting ∧ client.offer.valid = false ∧
      Client.getMessageType f.options = msgOffer then
    (revise f {}).svip.valid = true
  else if Sound f ∧ client.state = .requesting ∧ Client.getMessageType f.options = msgAck then
    (revise f client.settings.terms).svip = client.settings.terms.svip
  else revise f client.settings.terms = client.settings.terms

instance (client : Client) (f : Frame) : Decidable (Consistent client f) :=
  inferInstanceAs (Decidable (ite _ _ _))

def Faithful (x : Exchange) : ClientOp → Prop
  | .demux buf => ∀ f, Frame.ofBytes buf = .ok f → Read x.client f → Consistent x.client f
  | .encapsulate _ => True

instance (x : Exchange) (op : ClientOp) : Decidable (Faithful x op) :=
  match op with
  | .demux _ => decidableNext
  | .encapsulate _ => isTrue trivial

theorem walk_terms (fuel : ℕ) : ∀ (s : Settings) (options : Bytes),
    (walk setOption fuel s options).1.terms =
        (walk (fun t opt data => (setTerm t opt data, none)) fuel s.terms options).1 ∧
      (walk setOption fuel s options).2 =
        (walk (fun t opt data => (setTerm t opt data, none)) fuel s.terms options).2 := by
  induction fuel with
  | zero =>
    intro s options
    exact ⟨rfl, rfl⟩
  | succ fuel ih =>
  intro s options
  match options with
  | [] => exact ⟨rfl, rfl⟩
  | [_] => exact ⟨rfl, rfl⟩
  | opt :: len :: rest =>
    unfold walk
    split_ifs
    · exact ⟨rfl, rfl⟩
    · exact ih s _
    · exact ⟨rfl, rfl⟩
    · exact ih _ _

theorem walk_sound (fuel : ℕ) : ∀ (t t' : Terms) (options : Bytes),
    (walk (fun t opt data => (setTerm t opt data, (none : Option Err))) fuel t options).2 =
      (walk (fun t opt data => (setTerm t opt data, none)) fuel t' options).2 := by
  induction fuel with
  | zero =>
    intro t t' options
    rfl
  | succ fuel ih =>
  intro t t' options
  match options with
  | [] => rfl
  | [_] => rfl
  | opt :: len :: rest =>
    unfold walk
    split_ifs
    · rfl
    · exact ih _ _ _
    · rfl
    · exact ih _ _ _

theorem forEachOption_terms (s : Settings) (f : Frame) :
    (forEachOption setOption s f.options).1.terms = revise f s.terms ∧
      ((forEachOption setOption s f.options).2 = none ↔ Sound f) := by
  unfold revise Sound forEachOption
  split
  · exact ⟨rfl, by simp⟩
  obtain ⟨hterms, herr⟩ := walk_terms f.options.length s f.options
  rw [hterms, herr, walk_sound f.options.length s.terms {} f.options]
  exact ⟨rfl, Iff.rfl⟩

theorem receive_unread (h : ¬Read client f) : (client.receive f).1 = client := by
  unfold receive
  by_cases hxid : f.xid ≠ client.currentXID
  · rw [if_pos hxid]
  by_cases hcookie : f.cookie ≠ magicCookie
  · rw [if_neg hxid, if_pos hcookie]
  rw [if_neg hxid, if_neg hcookie]
  split
  · rfl
  split
  · rfl
  rename_i htype
  refine absurd ⟨not_not.1 hxid, not_not.1 hcookie, ?_⟩ h
  rwa [not_and_or, not_not, not_not] at htype

theorem receive_read (h : Read client f) :
    ∃ c : Client, c.offer = client.offer ∧ c.state = client.state ∧
      c.settings.terms = revise f client.settings.terms ∧
      (client.receive f).1 = if Sound f then (c.judge f).1 else c := by
  obtain ⟨hxid, hcookie, htype⟩ := h
  obtain ⟨hterms, hsound⟩ := forEachOption_terms client.settings f
  have hnack : getMessageType f.options ≠ msgNack := by
    rcases htype with htype | htype
    all_goals
      rw [htype]
      decide
  have hgood : ¬(getMessageType f.options ≠ msgOffer ∧
      getMessageType f.options ≠ msgAck) := by
    rwa [not_and_or, not_not, not_not]
  unfold receive
  rw [if_neg (not_not.2 hxid), if_neg (not_not.2 hcookie), if_neg hnack, if_neg hgood]
  rcases hset : forEachOption setOption client.settings f.options with ⟨settings, err⟩
  rw [hset] at hterms hsound
  refine ⟨{ client with settings }, rfl, rfl, hterms, ?_⟩
  cases err with
  | none => rw [if_pos (hsound.1 rfl)]
  | some err => rw [if_neg fun hs => by cases hsound.2 hs]

def Locks (client : Client) (f : Frame) : Prop :=
  client.state = .selecting ∧ client.offer.valid = false ∧
    Client.getMessageType f.options = msgOffer

def Binds (client : Client) (f : Frame) : Prop :=
  client.state = .requesting ∧ Client.getMessageType f.options = msgAck

theorem judge_other (hlocks : ¬Locks client f) (hbinds : ¬Binds client f) :
    (client.judge f).1 = client := by
  unfold judge
  split
  · rename_i hst
    exact congrArg Prod.fst (if_neg fun hc => hlocks ⟨hst, hc.2, hc.1⟩)
  · rename_i hst
    exact congrArg Prod.fst (if_neg fun hc => hbinds ⟨hst, hc⟩)
  · rfl

/-- What was assigned is what the recorded offer gave, and the offer names its server. -/
structure Locked (assigned : Addr4) (offer : Option Frame) (o : Frame) : Prop where
  recorded : offer = some o
  assigned_eq : assigned = ⟨o.yiaddr, true⟩
  named : (revise o {}).svip.valid = true

def Known (assigned : Addr4) (terms : Terms) (offer ack : Option Frame) : ClientState → Prop
  | .init => assigned.valid = false ∧ terms = {}
  | .selecting =>
    assigned.valid = false ∧ terms = {} ∨ ∃ o, Locked assigned offer o ∧ terms = revise o {}
  | .requesting => ∃ o, Locked assigned offer o ∧ terms = revise o {}
  | .bound =>
    ∃ o a, Locked assigned offer o ∧ ack = some a ∧ terms = revise a (revise o {}) ∧
      (revise a (revise o {})).svip = (revise o {}).svip
  | _ => False

def Agreed (x : Exchange) : Prop :=
  Known x.client.offer x.client.settings.terms x.offer x.ack x.client.state

theorem Agreed.unchanged (h : Agreed x) (f : Frame) (hoffer : client.offer = x.client.offer)
    (hst : client.state = x.client.state)
    (hterms : client.settings.terms = x.client.settings.terms) : Agreed (x.note client f) := by
  have hsame : (x.note client f).offer = x.offer := by
    refine if_neg ?_
    rw [hoffer]
    rintro ⟨hfalse, htrue⟩
    rw [hfalse] at htrue
    cases htrue
  have hack : (x.note client f).ack = x.ack := by
    refine if_neg ?_
    rw [hst]
    exact fun hc => hc.1 hc.2
  unfold Agreed
  rw [hsame, hack]
  simp only [Exchange.note, hoffer, hst, hterms]
  exact h

theorem agreed_judge (h : Agreed x) (hs : Sound f) (hcons : Consistent x.client f) {c : Client}
    (hoffer : c.offer = x.client.offer) (hst : c.state = x.client.state)
    (hterms : c.settings.terms = revise f x.client.settings.terms) :
    Agreed (x.note (c.judge f).1 f) := by
  unfold Consistent at hcons
  unfold Agreed at h
  by_cases hlocks : Locks x.client f
  · obtain ⟨hsel, hopen, htype⟩ := hlocks
    have hjudge := judge_offer (hst.trans hsel) (hoffer ▸ hopen) htype
    rw [if_pos ⟨hs, hsel, hopen, htype⟩] at hcons
    have hblank : x.client.settings.terms = {} := by
      rw [hsel] at h
      rcases h with ⟨-, hblank⟩ | ⟨o, ho, -⟩
      · exact hblank
      · rw [ho.assigned_eq] at hopen
        cases hopen
    rw [hblank] at hterms
    rw [hjudge]
    simp only [Exchange.note, hst, hsel]
    exact .inr ⟨f, ⟨if_pos ⟨hopen, trivial⟩, rfl, hcons⟩, hterms⟩
  rw [if_neg fun hc => hlocks hc.2] at hcons
  have hlocks' : ¬Locks c f := fun hc => hlocks ⟨hst ▸ hc.1, hoffer ▸ hc.2.1, hc.2.2⟩
  by_cases hbinds : Binds x.client f
  · obtain ⟨hreq, htype⟩ := hbinds
    have hjudge := judge_ack (hst.trans hreq) htype
    rw [if_pos ⟨hs, hreq, htype⟩] at hcons
    rw [hreq] at h
    obtain ⟨o, ho, hknown⟩ := h
    rw [hknown] at hterms hcons
    rw [hjudge]
    simp only [Exchange.note]
    refine ⟨o, f, ⟨?_, hoffer.trans ho.assigned_eq, ho.named⟩, ?_, hterms, hcons⟩
    · rw [if_neg, ho.recorded]
      rw [ho.assigned_eq]
      exact fun hc => by cases hc.1
    · exact if_pos ⟨by rw [hreq]; decide, trivial⟩
  rw [if_neg fun hc => hbinds hc.2] at hcons
  have hbinds' : ¬Binds c f := fun hc => hbinds ⟨hst ▸ hc.1, hc.2⟩
  rw [judge_other hlocks' hbinds']
  exact Agreed.unchanged h f hoffer hst (hterms.trans hcons)

theorem agreed_receive (h : Agreed x) (hfaithful : Read x.client f → Consistent x.client f) :
    Agreed (x.note (x.client.receive f).1 f) := by
  by_cases hread : Read x.client f
  · have hcons := hfaithful hread
    obtain ⟨c, hoffer, hst, hterms, heq⟩ := receive_read hread
    rw [heq]
    by_cases hs : Sound f
    · rw [if_pos hs]
      exact agreed_judge h hs hcons hoffer hst hterms
    rw [if_neg hs]
    rw [Consistent, if_neg fun hc => hs hc.1, if_neg fun hc => hs hc.1] at hcons
    exact h.unchanged f hoffer hst (hterms.trans hcons)
  · rw [receive_unread hread]
    exact h.unchanged f rfl rfl rfl

theorem agreed_encapsulate (h : Agreed x) (room : ℕ) :
    Agreed { x with client := (x.client.encapsulate room).1 } := by
  rcases hcall : x.client.encapsulate room with ⟨client', r⟩
  unfold Agreed at h ⊢
  rcases encapsulate_cases hcall with ⟨rfl, -⟩ | ⟨hst, rfl, -⟩ | ⟨hst, hvalid, rfl, -⟩
  · exact h
  · rw [hst] at h
    exact .inl h
  rw [hst] at h
  refine h.resolve_left fun hc => ?_
  rw [hc.1] at hvalid
  cases hvalid

theorem step_agreed (x : Exchange) (op : ClientOp) (x' : Exchange) (h : Agreed x)
    (hfaithful : Faithful x op) (hstep : step x op = .ok x') : Agreed x' := by
  cases op with
  | encapsulate room =>
    cases hstep
    exact agreed_encapsulate h room
  | demux buf =>
  unfold step demux at hstep
  cases hbuf : Frame.ofBytes buf with
  | error err =>
    simp only [hbuf] at hstep
    cases hstep
    split_ifs
    · exact h
    · exact h
  | ok f =>
  simp only [hbuf] at hstep
  cases hstep
  split_ifs
  · exact h.unchanged f rfl rfl rfl
  · exact agreed_receive h (hfaithful f hbuf)

/-- In faithful runs the REQUEST names address and server of the one offer locked in, and the terms
of a bound client are those of that offer as its server's acknowledgement revised them. -/
theorem faithful_runs_bind (client₀ : Client) (xid : UInt32) (cfg : RequestConfig)
    (hbegin : (client₀.beginRequest xid cfg).2 = none) (ops : List ClientOp)
    (hfaithful : Guarded step Faithful { client := (client₀.beginRequest xid cfg).1 } ops)
    (x : Exchange) (hrun : exec step { client := (client₀.beginRequest xid cfg).1 } ops = .ok x) :
    (x.client.state = .selecting → ∀ room client' out,
        x.client.encapsulate room = (client', .ok (some out)) →
          ∃ o rest, x.offer = some o ∧ (revise o {}).svip.valid = true ∧
            out.options = encodeAll ((optMessageType, [msgRequest]) ::
              (optRequestedIPaddress, be32 o.yiaddr) ::
              (optServerIdentification, be32 (revise o {}).svip.addr) :: rest)) ∧
      (x.client.state = .bound →
        ∃ o a, x.offer = some o ∧ x.ack = some a ∧ x.client.offer = ⟨o.yiaddr, true⟩ ∧
          x.client.settings.terms = revise a (revise o {}) ∧
          x.client.settings.terms.svip = (revise o {}).svip) := by
  have hstart : Agreed { client := (client₀.beginRequest xid cfg).1 } := by
    unfold beginRequest at hbegin ⊢
    split_ifs at hbegin ⊢
    exact ⟨rfl, rfl⟩
  have hend := exec_invariant step_agreed ops _ x hstart hfaithful hrun
  unfold Agreed at hend
  constructor
  · intro hstate room client' out hout
    rw [hstate] at hend
    rcases encapsulate_cases hout with ⟨-, hnone⟩ | ⟨hinit, -⟩ | ⟨-, hvalid, -, hframe⟩
    · exact absurd rfl (hnone out)
    · rw [hstate] at hinit
      cases hinit
    obtain ⟨o, ho, hterms⟩ := hend.resolve_left fun hc => by
      rw [hc.1] at hvalid
      cases hvalid
    refine ⟨o, x.client.identity, ho.recorded, ho.named, ?_⟩
    cases hframe
    simp only [frame, requestOptions, ho.assigned_eq, hterms]
    rfl
  intro hstate
  rw [hstate] at hend
  obtain ⟨o, a, ho, ha, hterms, hsvip⟩ := hend
  exact ⟨o, a, ho.recorded, ha, ho.assigned_eq, hterms, hterms ▸ hsvip⟩

def fromServer (msgType : UInt8) (server yiaddr : UInt32) : ClientOp :=
  .demux (Frame.bytes
    { op := opReply, xid := 7, yiaddr, siaddr := server, cookie := magicCookie
      options := encodeAll [(optMessageType, [msgType]), (optServerIdentification, be32 server),
        (optRouter, be32 server), (optIPAddressLeaseTime, be32 3600)] })

def oneRequest : RequestConfig := { clientHardwareAddr := {} }

def begun : Exchange := { client := (({} : Client).beginRequest 7 oneRequest).1 }

def oneServer : List ClientOp :=
  [.encapsulate 495, fromServer msgOffer 0x0a000001 0x0a000002, .encapsulate 495,
    fromServer msgAck 0x0a000001 0x0a000002]

theorem faithful_runs_bind_one : ∃ x, exec step begun oneServer = .ok x ∧ x.client.state = .bound ∧
      ∃ o a, x.offer = some o ∧ x.ack = some a ∧ x.client.offer = ⟨o.yiaddr, true⟩ ∧
        x.client.settings.terms = revise a (revise o {}) ∧
        x.client.settings.terms.svip = (revise o {}).svip := by
  obtain ⟨x, hrun, hbound⟩ : ∃ x, exec step begun oneServer = .ok x ∧ x.client.state = .bound :=
    exists_exec (by decide +kernel)
  exact ⟨x, hrun, hbound, (faithful_runs_bind {} 7 oneRequest (by decide +kernel) oneServer
    (by decide +kernel) x hrun).2 hbound⟩

def observe {α : Type} (ops : List ClientOp) (see : Client → α) : Option α :=
  (exec step begun ops).toOption.map fun x => see x.client

/-- The offer of a second server is turned down, yet the REQUEST for the address of the first
names it; a late offer changes the server and the router of a bound client. -/
theorem offers_mix : observe [.encapsulate 495, fromServer msgOffer 0x0a000001 0x0a000002,
        fromServer msgOffer 0x0b000001 0x0b000002]
        (fun client => (client.encapsulate 495).2.toOption.map (Option.map Frame.options)) =
      some (some (some (encodeAll [(optMessageType, [msgRequest]),
        (optRequestedIPaddress, be32 0x0a000002), (optServerIdentification, be32 0x0b000001),
        (optClientIdentifier, List.replicate 6 0)]))) ∧
      observe (oneServer ++ [fromServer msgOffer 0x0b000001 0x0b000002])
        (fun client => (client.state, client.offer.addr, client.settings.terms.svip.addr,
          client.settings.terms.router.addr)) =
      some (.bound, 0x0a000002, 0x0b000001, 0x0b000001) := by
  decide +kernel

def IsNack (client : Client) (f : Frame) : Prop :=
  f.xid = client.currentXID ∧ f.cookie = magicCookie ∧
    getMessageType f.options = msgNack

theorem receive_accepted (hread : Read client f) (hsound : Sound f)
    (hstate : client.state = .selecting ∨ client.state = .requesting) :
    (client.receive f).2 = none := by
  obtain ⟨hxid, hcookie, htype⟩ := hread
  have hsome := (forEachOption_terms client.settings f).2.2 hsound
  have hnack : getMessageType f.options ≠ msgNack := by
    rcases htype with htype | htype
    all_goals
      rw [htype]
      decide
  rw [receive, if_neg (not_not.2 hxid), if_neg (not_not.2 hcookie), if_neg hnack, if_neg]
  · rcases hset : forEachOption setOption client.settings f.options with ⟨settings, err⟩
    rw [hset] at hsome
    cases hsome
    rcases hstate with hstate | hstate
    all_goals
      simp only [judge, hstate]
      split_ifs
      all_goals rfl
  · rwa [not_and_or, not_not, not_not]

/-- Any other message that is read is refused, with its options stored. -/
theorem receive_refused (hread : Read client f)
    (hbad : ¬(Sound f ∧ (client.state = .selecting ∨ client.state = .requesting))) :
    (client.receive f).2 ≠ none ∧ (client.receive f).1 =
      { client with settings := (forEachOption setOption client.settings f.options).1 } := by
  obtain ⟨hxid, hcookie, htype⟩ := hread
  have hsome := (forEachOption_terms client.settings f).2
  have hnack : getMessageType f.options ≠ msgNack := by
    rcases htype with htype | htype
    all_goals
      rw [htype]
      decide
  rw [receive, if_neg (not_not.2 hxid), if_neg (not_not.2 hcookie), if_neg hnack, if_neg]
  · rcases hset : forEachOption setOption client.settings f.options with ⟨settings, err⟩
    rw [hset] at hsome
    cases err with
    | some err => exact ⟨Option.some_ne_none _, rfl⟩
    | none =>
      have hstate := not_or.1 fun hstate => hbad ⟨hsome.1 rfl, hstate⟩
      cases hst : client.state with
      | selecting => exact absurd hst hstate.1
      | requesting => exact absurd hst hstate.2
      | _ =>
        simp only [judge]
        exact ⟨Option.some_ne_none _, trivial⟩
  · rwa [not_and_or, not_not, not_not]

/-- The options that are read before the first malformed one repeat what the client has. -/
def Repeats (client : Client) (f : Frame) : Prop :=
  (forEachOption setOption client.settings f.options).1 = client.settings

/-- Options of which the last is cut off. -/
def cutOff : Bytes :=
  Frame.bytes { xid := 7, cookie := magicCookie
                options := [optMessageType, 1, msgOffer, optHostName, 1, 97, optRouter, 4] }

def nack : List ClientOp := oneServer.take 3 ++ [fromServer msgNack 0x0a000001 0x0a000002]

end Lneto.DhcpOffers
