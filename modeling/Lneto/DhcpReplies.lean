import Lneto.DhcpLeases

/-!
The answers the server owes. Beside the server runs a ledger: an accepted
message is owed an answer with its transaction and hardware address, until it is
sent or a later message of the client takes its place. While no message without
an identifier is looked up by an address, the table is that ledger.
-/
namespace Lneto.DhcpReplies

open AddressCache (Mac6 Fault)
open Ipv4Prefix DhcpFrame DhcpServer KeyedTables GuardedRuns Option Entry
open DhcpLeases (chaddrOf fromClient toClient smallServer exchange)
open Server (demux dispatch pick_some)
open Server
open AList

variable {key : Key} {sv : Server}

def ownKey (f : Frame) (p : Parsed) : Key :=
  padKey (if p.clientID = [] then f.chaddr.bytes else p.clientID)

structure Watched where
  sv : Server
  owed : Table Key (UInt32 × Mac6) := ∅

def charge (owed : Table Key (UInt32 × Mac6)) (f : Frame) (p : Parsed) :
    Table Key (UInt32 × Mac6) :=
  if p.msgType = msgRelease then owed.erase (ownKey f p)
  else owed.insert (ownKey f p) (f.xid, f.chaddr)

def watch (w : Watched) : ServerOp → Except Fault Watched
  | .demux choice buf =>
    .ok { sv := (w.sv.demux choice buf).1
          owed :=
            match (w.sv.demux choice buf).2, understand buf with
            | none, .ok (f, p) => charge w.owed f p
            | _, _ => w.owed }
  | .encapsulate room carrier choice => do
    let (sv, r) ← w.sv.encapsulate room carrier choice
    match r, w.sv.pick choice with
    | .ok (some _), some (key, _) => return { sv, owed := w.owed.erase key }
    | _, _ => return { w with sv }

/-- Messages that are not looked up by an address, and requests from the hardware address of the
client. -/
def Direct (w : Watched) : ServerOp → Prop
  | .demux _ buf =>
    match understand buf with
    | .error _ => True
    | .ok (f, p) =>
      (p.clientID = [] → w.sv.hosts.lookup (ownKey f p) = none → f.ciaddr = 0) ∧
        (p.msgType = msgRequest → ∀ e ∈ w.sv.hosts.lookup (ownKey f p), f.chaddr = e.hwaddr)
  | .encapsulate _ _ _ => True

instance (w : Watched) (op : ServerOp) : Decidable (Direct w op) :=
  match op with
  | .demux _ buf =>
    match h : understand buf with
    | .error _ => isTrue (by simp only [Direct, h])
    | .ok (f, p) =>
      decidable_of_iff
        ((p.clientID = [] → w.sv.hosts.lookup (ownKey f p) = none → f.ciaddr = 0) ∧
          (p.msgType = msgRequest → ∀ e ∈ w.sv.hosts.lookup (ownKey f p), f.chaddr = e.hwaddr))
        (by simp only [Direct, h])
  | .encapsulate _ _ _ => isTrue trivial

structure Ledger (w : Watched) : Prop where
  counted : w.sv.pending = tally Entry.awaits w.sv.hosts
  owed_eq : ∀ k, w.owed.lookup k =
    ((w.sv.hosts.lookup k).filter Entry.awaits).map fun e => (e.xid, e.hwaddr)

theorem locate_direct {choice : Key} {f : Frame} {p : Parsed}
    (h : p.clientID = [] → sv.hosts.lookup (ownKey f p) = none → f.ciaddr = 0) :
    sv.locate choice f p = (ownKey f p, sv.hosts.lookup (ownKey f p)) := by
  unfold locate
  by_cases hid : p.clientID = []
  · have hkey : ownKey f p = padKey f.chaddr.bytes := by rw [ownKey, if_pos hid]
    rw [hkey] at h ⊢
    rw [if_pos hid]
    cases hlook : sv.hosts.lookup (padKey f.chaddr.bytes) with
    | some e => rfl
    | none =>
      rw [if_pos (h hid hlook)]
  · have hkey : ownKey f p = padKey p.clientID := by rw [ownKey, if_neg hid]
    rw [if_neg hid, hkey]

section
variable {w : Watched} (h : Ledger w)
include h

theorem Ledger.put {e : Entry} {owed : Table Key (UInt32 × Mac6)}
    (hhosts : sv.hosts = w.sv.hosts.insert key e)
    (hpending : sv.pending = w.sv.pending - (if (w.sv.hosts.lookup key).any awaits then 1
      else 0) + (if e.awaits then 1 else 0))
    (hother : ∀ k, k ≠ key → owed.lookup k = w.owed.lookup k)
    (hkey : owed.lookup key = if e.awaits then some (e.xid, e.hwaddr) else none) :
    Ledger { sv, owed } where
  counted := by
    simp only [hhosts]
    rw [tally_insert_int, hpending, h.counted]
  owed_eq := by
    intro k
    simp only [hhosts]
    by_cases hk : k = key
    · subst hk
      rw [lookup_insert, hkey]
      cases hawaits : e.awaits <;> simp [hawaits]
    · rw [lookup_insert_ne hk, hother k hk, h.owed_eq]

theorem Ledger.owe {e : Entry} (hhosts : sv.hosts = w.sv.hosts.insert key e) (hawaits : e.awaits)
    (hpending : sv.pending = w.sv.pending - (if (w.sv.hosts.lookup key).any awaits then 1
      else 0) + 1) : Ledger { sv, owed := w.owed.insert key (e.xid, e.hwaddr) } :=
  h.put hhosts (by rw [hpending, hawaits, if_pos rfl]) (fun k hk => lookup_insert_ne hk)
    (by rw [lookup_insert, hawaits, if_pos rfl])

theorem Ledger.onDiscover {f : Frame} {reqAddr : Option UInt32}
    (hok : (w.sv.onDiscover key (w.sv.hosts.lookup key) f reqAddr).2 = none) :
    Ledger { sv := (w.sv.onDiscover key (w.sv.hosts.lookup key) f reqAddr).1
             owed := w.owed.insert key (f.xid, f.chaddr) } := by
  have hawaits : ∀ addr, (Server.discovered f addr).awaits := fun _ => rfl
  cases hlook : w.sv.hosts.lookup key with
  | some client =>
    refine h.owe rfl (hawaits client.addr) ?_
    rw [hlook]
    rfl
  | none =>
  rw [hlook] at hok
  unfold Server.onDiscover at hok ⊢
  rcases halloc : w.sv.allocAddr reqAddr with ⟨sv, _ | addr⟩
  · rw [halloc] at hok
    cases hok
  obtain ⟨hhosts, hpend⟩ : sv.hosts = w.sv.hosts ∧ sv.pending = w.sv.pending := by
    simpa only [halloc] using w.sv.allocAddr_hosts reqAddr
  refine h.owe (e := Server.discovered f addr) ?_ (hawaits addr) ?_
  · simp only [Server.file, hhosts]
  · rw [hlook]
    simp only [Server.file, hpend, any_none, Bool.false_eq_true, if_false, sub_zero]

end

theorem onDiscover_fails {found : Option Entry} {f : Frame} {reqAddr : Option UInt32}
    (hfail : (sv.onDiscover key found f reqAddr).2 ≠ none) :
    (sv.onDiscover key found f reqAddr).1 = sv.advance := by
  cases found with
  | some client => exact absurd rfl hfail
  | none =>
  unfold onDiscover allocAddr at hfail ⊢
  by_cases hreq : sv.grants reqAddr
  · obtain ⟨addr, rfl⟩ : ∃ addr, reqAddr = some addr := by
      cases reqAddr with
      | none => cases hreq
      | some addr => exact ⟨addr, rfl⟩
    rw [if_pos hreq] at hfail
    exact absurd rfl hfail
  split_ifs at hfail ⊢
  · rfl
  · exact absurd rfl hfail

theorem Ledger.onRequest {w : Watched} (h : Ledger w) {f : Frame}
    (hhw : ∀ e ∈ w.sv.hosts.lookup key, f.chaddr = e.hwaddr)
    (hok : (w.sv.onRequest key (w.sv.hosts.lookup key) f).2 = none) :
    Ledger { sv := (w.sv.onRequest key (w.sv.hosts.lookup key) f).1
             owed := w.owed.insert key (f.xid, f.chaddr) } := by
  cases hlook : w.sv.hosts.lookup key with
  | none =>
    rw [hlook] at hok
    cases hok
  | some client =>
  rw [hlook] at hok
  rw [hhw client hlook]
  unfold Server.onRequest at hok ⊢
  simp only at hok ⊢
  by_cases hxid : f.xid ≠ client.xid
  · rw [if_pos hxid] at hok
    cases hok
  rw [if_neg hxid] at hok ⊢
  rw [not_not.1 hxid]
  by_cases hsel : client.state = .selecting
  · rw [if_pos hsel]
    refine h.owe (e := { client with state := .requesting }) rfl rfl ?_
    rw [hlook]
    simp [Server.file, awaits, hsel]
  rw [if_neg hsel] at hok ⊢
  by_cases hreq : client.state = .requesting
  · rw [if_pos hreq]
    have hawaits : client.awaits := by rw [awaits, hreq]; rfl
    refine h.owe (e := client) rfl hawaits ?_
    rw [hlook]
    simp [Server.file, hawaits]
  · rw [if_neg hreq] at hok
    cases hok

theorem onRequest_fails {found : Option Entry} {f : Frame}
    (hfail : (sv.onRequest key found f).2 ≠ none) : (sv.onRequest key found f).1 = sv := by
  cases found with
  | none => rfl
  | some client =>
  unfold onRequest at hfail ⊢
  simp only at hfail ⊢
  split_ifs at hfail ⊢
  · rfl
  · exact absurd rfl hfail
  · exact absurd rfl hfail
  · rfl

section
variable {w : Watched} (h : Ledger w)
include h

theorem Ledger.onRelease (key : Key) :
    Ledger { sv := w.sv.onRelease key (w.sv.hosts.lookup key), owed := w.owed.erase key } := by
  cases hlook : w.sv.hosts.lookup key with
  | none =>
    refine h.put rfl ?_ (fun k hk => lookup_erase_ne hk) (lookup_erase key _)
    rw [hlook]
    simp [Server.onRelease, Server.file, awaits]
  | some client =>
  refine ⟨?_, fun k => ?_⟩
  · simp only [Server.onRelease, Server.forgive]
    rw [tally_erase_int, h.counted, hlook]
  simp only [Server.onRelease]
  by_cases hk : k = key
  · subst hk
    rw [lookup_erase, lookup_erase]
    rfl
  · rw [lookup_erase_ne hk, lookup_erase_ne hk, h.owed_eq]

theorem ledger_demux {choice : Key} {buf : Bytes}
    (hdirect : Direct w (.demux choice buf)) {w' : Watched}
    (hstep : watch w (.demux choice buf) = .ok w') : Ledger w' := by
  cases hstep
  simp only [Direct] at hdirect
  unfold demux
  cases hbuf : understand buf with
  | error err => exact ⟨h.counted, h.owed_eq⟩
  | ok r =>
  obtain ⟨f, p⟩ := r
  rw [hbuf] at hdirect
  obtain ⟨hkey, hhw⟩ := hdirect
  have hlocate := @locate_direct w.sv choice f p hkey
  simp only [dispatch, hlocate]
  by_cases hdisc : p.msgType = msgDiscover
  · have hrel : ¬p.msgType = msgRelease := by
      rw [hdisc]
      decide
    simp only [if_pos hdisc]
    cases hok : (w.sv.onDiscover (ownKey f p) (w.sv.hosts.lookup (ownKey f p)) f p.reqAddr).2 with
    | none =>
      simp only [charge, if_neg hrel]
      exact h.onDiscover hok
    | some err =>
      simp only [onDiscover_fails (hok ▸ some_ne_none err)]
      exact ⟨h.counted, h.owed_eq⟩
  simp only [if_neg hdisc]
  by_cases hreq : p.msgType = msgRequest
  · have hrel : ¬p.msgType = msgRelease := by
      rw [hreq]
      decide
    simp only [if_pos hreq]
    cases hok : (w.sv.onRequest (ownKey f p) (w.sv.hosts.lookup (ownKey f p)) f).2 with
    | none =>
      simp only [charge, if_neg hrel]
      exact h.onRequest (hhw hreq) hok
    | some err =>
      simp only [onRequest_fails (hok ▸ some_ne_none err)]
      exact ⟨h.counted, h.owed_eq⟩
  simp only [if_neg hreq]
  by_cases hrel : p.msgType = msgRelease
  · simp only [if_pos hrel, charge]
    exact h.onRelease (ownKey f p)
  · simp only [if_neg hrel]
    exact ⟨h.counted, h.owed_eq⟩

theorem Ledger.deliver {e : Entry} (hkey : w.sv.hosts.lookup key = some e) (hawaits : e.awaits) :
    Ledger { sv := w.sv.deliver key e, owed := w.owed.erase key } := by
  have hdone := Server.awaits_answered e
  refine h.put (e := Server.answered e) rfl ?_ (fun k hk => lookup_erase_ne hk) ?_
  · rw [hkey, hdone]
    simp [Server.deliver, hawaits]
  · rw [hdone]
    exact lookup_erase key _

end

theorem watch_ledger (w : Watched) (op : ServerOp) (w' : Watched) (h : Ledger w)
    (hdirect : Direct w op) (hstep : watch w op = .ok w') : Ledger w' := by
  cases op with
  | demux choice buf => exact ledger_demux h hdirect hstep
  | encapsulate room carrier choice =>
  simp only [watch, bind, Except.bind] at hstep
  obtain ⟨⟨sv, out⟩, hcall, hstep⟩ := ok_bind (x := w.sv.encapsulate room carrier choice) hstep
  rcases encapsulate_cases hcall with ⟨rfl, hnone⟩ | ⟨key, e, hpick, rfl, rfl⟩
  · have hsame : w' = w := by
      rcases out with err | _ | out
      · cases hstep
        rfl
      · cases hstep
        rfl
      · exact absurd rfl (hnone out)
    rw [hsame]
    exact h
  simp only [hpick] at hstep
  cases hstep
  obtain ⟨hkey, hawaits⟩ := pick_some hpick
  exact h.deliver hkey hawaits

theorem pick_isSome (h : 0 < tally awaits sv.hosts) (choice : Key) :
    ∃ key e, sv.pick choice = some (key, e) := by
  obtain ⟨k, e, hk, hawaits⟩ := (tally_pos_iff _ _).1 h
  obtain ⟨x, hx⟩ : ∃ x, (sv.hosts.entries.find? fun x => x.2.awaits) = some x := by
    refine isSome_iff_exists.1 (List.find?_isSome.2 ⟨⟨k, e⟩, ?_, hawaits⟩)
    exact mem_lookup_iff.1 hk
  unfold pick
  rw [hx]
  split
  · split_ifs
    · exact ⟨_, _, rfl⟩
    · exact ⟨_, _, rfl⟩
  · exact ⟨_, _, rfl⟩

/-- With room and a carrier, a call answers somebody if anybody waits. -/
theorem encapsulate_waiting (hcounted : sv.pending = tally awaits sv.hosts) {room : ℕ}
    (hroom : 495 ≤ room) {carrier : Option ℕ} (hcarrier : carrier.all (· == 4)) (choice : Key) :
    (∃ key e, sv.pick choice = some (key, e) ∧
        sv.encapsulate room carrier choice = .ok (sv.deliver key e, .ok (some (sv.reply e)))) ∨
      tally awaits sv.hosts = 0 ∧ sv.encapsulate room carrier choice = .ok (sv, .ok none) := by
  unfold encapsulate
  rw [if_neg (by omega), if_neg (by omega)]
  by_cases hzero : tally awaits sv.hosts = 0
  · right
    rw [if_pos (by rw [hcounted, hzero]; rfl)]
    exact ⟨hzero, rfl⟩
  left
  obtain ⟨key, e, hpick⟩ := pick_isSome (Nat.pos_of_ne_zero hzero) choice
  rw [if_neg (by rw [hcounted]; exact_mod_cast hzero), hpick]
  simp only [hcarrier, if_true]
  exact ⟨key, e, rfl, rfl⟩

theorem dispatch_frame {choice k : Key} {found : Option Entry} {f : Frame} {p : Parsed}
    (hlocate : sv.locate choice f p = (key, found)) (hk : k ≠ key) :
    (sv.dispatch choice f p).1.hosts.lookup k = sv.hosts.lookup k := by
  have hfile : ∀ (sv' : Server) (e : Entry), sv'.hosts = sv.hosts →
      (sv'.file key e).hosts.lookup k = sv.hosts.lookup k := by
    intro sv' e heq
    rw [file, lookup_insert_ne hk, heq]
  simp only [dispatch, hlocate]
  split_ifs
  · cases found with
    | some client => exact hfile _ _ rfl
    | none =>
    have hhosts := (sv.allocAddr_hosts p.reqAddr).1
    unfold onDiscover
    rcases halloc : sv.allocAddr p.reqAddr with ⟨sv', _ | addr⟩
    · rw [halloc] at hhosts
      exact congrArg (lookup k) hhosts
    · rw [halloc] at hhosts
      exact hfile _ _ hhosts
  · cases found with
    | none => rfl
    | some client =>
    unfold onRequest
    simp only
    split_ifs
    · rfl
    · exact hfile _ _ rfl
    · exact hfile _ _ rfl
    · rfl
  · cases found with
    | none => exact hfile _ _ rfl
    | some client => exact lookup_erase_ne hk
  · rfl

theorem padKey_injective {m m' : Mac6} (h : padKey m.bytes = padKey m'.bytes) : m = m' := by
  have htake : ∀ m : Mac6, (padKey m.bytes).take 6 = m.bytes := by
    intro m
    have hlong : m.bytes.length ≤ (List.replicate 36 (0 : UInt8)).length := by
      rw [m.six, List.length_replicate]
      omega
    have hcopy := AddressCache.take_copyInto hlong
    rwa [m.six] at hcopy
  rw [← AddressCache.Mac6.ofBytes_bytes m, ← AddressCache.Mac6.ofBytes_bytes m', ← htake m,
    ← htake m', h]

theorem Ledger.owed_iff {w : Watched} (h : Ledger w) :
    (∃ key, w.owed.lookup key ≠ none) ↔ 0 < tally awaits w.sv.hosts := by
  rw [tally_pos_iff]
  constructor
  · rintro ⟨key, hne⟩
    rw [h.owed_eq, ne_eq, map_eq_none_iff, filter_eq_none_iff] at hne
    push Not at hne
    obtain ⟨e, he, hawaits⟩ := hne
    exact ⟨key, e, he, hawaits⟩
  rintro ⟨key, e, he, hawaits⟩
  refine ⟨key, ?_⟩
  rw [h.owed_eq, he]
  simp [hawaits]

/-- A call of the server with room for the options, in an IPv4 packet if there is one. -/
structure SendCall where
  room : ℕ
  carrier : Option ℕ
  choice : Key
  fits : 495 ≤ room
  ipv4 : carrier.all (· == 4) = true

def SendCall.op (c : SendCall) : ServerOp := .encapsulate c.room c.carrier c.choice

structure Answers (w : Watched) : Prop where
  counted : w.sv.pending = tally Entry.awaits w.sv.hosts
  emits_iff : ∀ c : SendCall,
    (∃ sv' out, w.sv.encapsulate c.room c.carrier c.choice = .ok (sv', .ok (some out))) ↔
      ∃ key, w.owed.lookup key ≠ none
  emits_owed : ∀ room carrier choice sv' out,
    w.sv.encapsulate room carrier choice = .ok (sv', .ok (some out)) →
      ∃ key, w.owed.lookup key = some (out.xid, out.chaddr) ∧
        watch w (.encapsulate room carrier choice) = .ok { sv := sv', owed := w.owed.erase key }
  drains : ∀ calls : List SendCall, tally Entry.awaits w.sv.hosts ≤ calls.length →
    ∃ w', exec watch w (calls.map SendCall.op) = .ok w' ∧ ∀ key, w'.owed.lookup key = none
  separate : ∀ choice buf f p, understand buf = .ok (f, p) → p.clientID = [] →
    Direct w (.demux choice buf) → ∀ m, m ≠ f.chaddr →
      (w.sv.demux choice buf).1.hosts.lookup (padKey m.bytes) = w.sv.hosts.lookup (padKey m.bytes)

theorem watch_emits {w : Watched} {room : ℕ} {carrier : Option ℕ} {choice : Key} {e : Entry}
    (hcall : w.sv.encapsulate room carrier choice = .ok (w.sv.deliver key e, .ok (some (w.sv.reply
      e)))) (hpick : w.sv.pick choice = some (key, e)) :
    watch w (.encapsulate room carrier choice) =
      .ok { sv := w.sv.deliver key e, owed := w.owed.erase key } := by
  simp only [watch, hcall, hpick, ok_then]
  rfl

theorem tally_deliver {e : Entry} (hkey : sv.hosts.lookup key = some e) (hawaits : e.awaits) :
    tally awaits (sv.deliver key e).hosts + 1 = tally awaits sv.hosts := by
  have hinsert := tally_insert_int awaits sv.hosts key (answered e)
  rw [hkey, any_some, hawaits, awaits_answered, if_pos rfl, if_neg Bool.false_ne_true] at hinsert
  simp only [deliver]
  omega

theorem Ledger.drains (calls : List SendCall) : ∀ {w : Watched}, Ledger w →
    tally awaits w.sv.hosts ≤ calls.length →
      ∃ w', exec watch w (calls.map SendCall.op) = .ok w' ∧ ∀ key, w'.owed.lookup key = none := by
  induction calls with
  | nil =>
    intro w h hle
    refine ⟨w, rfl, fun key => ?_⟩
    by_contra hne
    have := h.owed_iff.1 ⟨key, hne⟩
    simp only [List.length_nil] at hle
    omega
  | cons c calls ih =>
  intro w h hle
  have hstep : ∃ w', watch w c.op = .ok w' ∧ Ledger w' ∧
      tally awaits w'.sv.hosts ≤ calls.length := by
    rcases encapsulate_waiting h.counted c.fits c.ipv4 c.choice with
      ⟨key, e, hpick, hcall⟩ | ⟨hzero, hcall⟩
    · obtain ⟨hkey, hawaits⟩ := pick_some hpick
      refine ⟨_, watch_emits hcall hpick, h.deliver hkey hawaits, ?_⟩
      have hcount := tally_deliver hkey hawaits
      exact Nat.le_of_succ_le_succ (hcount.le.trans hle)
    refine ⟨w, ?_, h, by omega⟩
    simp only [SendCall.op, watch, hcall, ok_then]
    rfl
  obtain ⟨w', hw', hledger, hle'⟩ := hstep
  obtain ⟨w'', hrun, hempty⟩ := ih hledger hle'
  refine ⟨w'', ?_, hempty⟩
  simp only [List.map_cons, exec, hw', hrun]

theorem Ledger.answers {w : Watched} (h : Ledger w) : Answers w where
  counted := h.counted
  emits_iff := by
    intro c
    rw [h.owed_iff]
    rcases encapsulate_waiting h.counted c.fits c.ipv4 c.choice with
      ⟨key, e, hpick, hcall⟩ | ⟨hzero, hcall⟩
    · obtain ⟨hkey, hawaits⟩ := pick_some hpick
      exact ⟨fun _ => (tally_pos_iff _ _).2 ⟨key, e, hkey, hawaits⟩, fun _ => ⟨_, _, hcall⟩⟩
    · rw [hcall, hzero]
      simp
  emits_owed := by
    intro room carrier choice sv' out hcall
    rcases encapsulate_cases hcall with ⟨-, hnone⟩ | ⟨key, e, hpick, hout, rfl⟩
    · exact absurd rfl (hnone out)
    cases hout
    obtain ⟨hkey, hawaits⟩ := pick_some hpick
    refine ⟨key, ?_, watch_emits hcall hpick⟩
    rw [h.owed_eq, hkey]
    simp [hawaits, reply]
  drains := fun calls hle => Ledger.drains calls h hle
  separate := by
    intro choice buf f p hbuf hid hdirect m hm
    simp only [Direct, hbuf] at hdirect
    have hkey : ownKey f p = padKey f.chaddr.bytes := by rw [ownKey, if_pos hid]
    simp only [demux, hbuf]
    refine dispatch_frame (locate_direct hdirect.1) fun heq => hm ?_
    exact padKey_injective (heq.trans hkey)

/-- In runs of messages that are not looked up by an address, every answer is sent once. -/
theorem direct_runs_answer (sv₀ : Server) (cfg : ServerConfig)
    (hcfg : (sv₀.configure cfg).2 = none) (ops : List ServerOp)
    (hdirect : Guarded watch Direct { sv := (sv₀.configure cfg).1 } ops) (w : Watched)
    (hrun : exec watch { sv := (sv₀.configure cfg).1 } ops = .ok w) : Answers w := by
  rw [(Server.configure_ok hcfg).2.2] at hdirect hrun
  have hstart : Ledger { sv := Server.configured cfg } := ⟨rfl, fun _ => rfl⟩
  exact (exec_invariant watch_ledger ops _ w hstart hdirect hrun).answers

theorem direct_runs_answer_exchange :
    ∃ w, exec watch { sv := (({} : Server).configure (smallServer 24)).1 } exchange = .ok w ∧
      Answers w := by
  obtain ⟨w, hrun, -⟩ : ∃ w, exec watch { sv := (({} : Server).configure (smallServer 24)).1 }
      exchange = .ok w ∧ w.sv.pending = 1 := exists_exec (by decide +kernel)
  exact ⟨w, hrun, direct_runs_answer {} (smallServer 24) (by decide +kernel) exchange
    (by decide +kernel) w hrun⟩

def renewing (host : UInt8) (ciaddr : UInt32) : ServerOp :=
  .demux [] (Frame.bytes
    { op := opRequest, xid := host.toUInt32, chaddr := chaddrOf host, ciaddr, cookie := magicCookie
      options := encodeAll [(optMessageType, [msgDiscover])] })

def afterwards {α : Type} (ops : List ServerOp) (see : Server → α) : Option α :=
  (exec step (({} : Server).configure (smallServer 24)).1 ops).toOption.map see

/-- Two clients with unknown addresses share the zero key; a client that names the address of
another takes over its entry. -/
theorem address_lookup_shares : afterwards [renewing 1 0x0a00004d, renewing 2 0x0a00004e]
        (fun sv => (sv.pending, tally Entry.awaits sv.hosts,
          (sv.hosts.lookup (padKey [])).map Entry.hwaddr)) = some (2, 1, some (chaddrOf 2)) ∧
      afterwards [renewing 1 0x0a00004d, renewing 2 0x0a00004e, toClient 2]
        (fun sv => (sv.pending, tally Entry.awaits sv.hosts)) = some (1, 0) ∧
      afterwards [fromClient 1 msgDiscover, toClient 1, renewing 2 0x0a000002]
        (fun sv => (sv.hosts.lookup (padKey (chaddrOf 1).bytes)).map Entry.hwaddr) =
        some (some (chaddrOf 2)) := by
  decide +kernel

end Lneto.DhcpReplies
