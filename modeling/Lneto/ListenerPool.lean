import Lneto.GuardedRuns
import Lneto.RangeLoops
import Lneto.Segments
import Mathlib.Data.List.GetD

/-!
A TCP listener on top of a pool of connections. The pool marks a connection as
taken by the time of its acquisition; the listener keeps lists of incoming and
accepted connections. Every call comes with what the listener sees of them, and
with the clock of the pool.
-/
namespace Lneto.ListenerPool

open Segments GuardedRuns RangeLoops List

variable {conn idx : ℕ} {out : List ℕ} {now : BitVec 64}

inductive ConnErr where
  | netClosed
  | exhausted
  | mismatch
  | packetDrop
  | other
deriving DecidableEq, Repr

inductive Fault where
  | notInPool
deriving DecidableEq, Repr

structure TCPPool where
  naqcuired : ℤ := 0
  userData : List ℕ
  acquiredAt : List (BitVec 64)
  nextISS : Value := 0

namespace TCPPool

def new (userData : List ℕ) : TCPPool :=
  { userData := userData, acquiredAt := List.replicate userData.length 0 }

def getTCP (p : TCPPool) (now : BitVec 64) : TCPPool × Option (ℕ × Option ℕ × Value) :=
  match p.acquiredAt.findIdx? (· == 0) with
  | none => (p, none)
  | some i =>
    ({ p with
        acquiredAt := p.acquiredAt.set i now
        nextISS := p.nextISS + 1000
        naqcuired := p.naqcuired + 1 }, some (i, p.userData[i]?, p.nextISS + 1000))

def putTCP (p : TCPPool) (conn : ℕ) : Except Fault TCPPool :=
  if conn < p.acquiredAt.length then
    .ok { p with acquiredAt := p.acquiredAt.set conn 0, naqcuired := p.naqcuired - 1 }
  else .error .notInPool

end TCPPool

/-- An entry of the listener's lists; the zero value marks a free slot. -/
structure Entry where
  conn : Option ℕ := none
  id : BitVec 64 := 0
  userData : Option ℕ := none
deriving DecidableEq, Repr

/-- What the listener sees of the connection at a position of a list, and what it
answers. -/
structure Seen where
  state : State := .closed
  connid : BitVec 64 := 0
  remotePort : BitVec 16 := 0
  remoteAddr : List UInt8 := []
  n : ℤ := 0
  err : Option ConnErr := none
deriving DecidableEq, Repr

inductive PoolCall where
  | got (conn : ℕ)
  | put (conn : ℕ)
deriving DecidableEq, Repr

structure Listener where
  connID : BitVec 64 := 0
  incoming : List Entry := []
  accepted : List Entry := []
  port : BitVec 16 := 0
  pool : TCPPool
  history : List PoolCall := []

variable {l : Listener}

inductive Side where
  | incoming
  | accepted
deriving DecidableEq, Repr

namespace Listener

def isClosed (l : Listener) : Bool := l.port == 0

def conns (l : Listener) : Side → List Entry
  | .incoming => l.incoming
  | .accepted => l.accepted

def setConns (l : Listener) (side : Side) (entries : List Entry) : Listener :=
  match side with
  | .incoming => { l with incoming := entries }
  | .accepted => { l with accepted := entries }

def poolGet (l : Listener) (now : BitVec 64) : Listener × Option (ℕ × Option ℕ × Value) :=
  match l.pool.getTCP now with
  | (pool, none) => ({ l with pool := pool }, none)
  | (pool, some got) =>
    ({ l with pool := pool, history := l.history ++ [.got got.1] }, some got)

def poolReturn (l : Listener) (conn : ℕ) : Except Fault Listener := do
  let pool ← l.pool.putTCP conn
  .ok { l with pool := pool, history := l.history ++ [.put conn] }

/-- The connection at a position goes back to the pool and its slot is freed. -/
def returnConn (l : Listener) (side : Side) (idx : ℕ) : Except Fault Listener :=
  match ((l.conns side).getD idx {}).conn with
  | none => .error .notInPool
  | some conn => do
    let l ← l.poolReturn conn
    .ok (l.setConns side ((l.conns side).set idx {}))

def returnAccepted (l : Listener) (idx : ℕ) : Except Fault Listener := l.returnConn .accepted idx

def returnIncoming (l : Listener) (idx : ℕ) : Except Fault Listener := l.returnConn .incoming idx

def maintainConn (l : Listener) (side : Side) (idx : ℕ) (err : Option ConnErr) :
    Except Fault (Listener × Option ConnErr) :=
  if err = some .netClosed then do
    let l ← l.returnConn side idx
    .ok (l, none)
  else .ok (l, err)

def deleteZeroed (entries : List Entry) : List Entry := entries.filter (· != {})

/-- Past ESTABLISHED, closed, or back in LISTEN. -/
def handshakeFailed : State → Bool
  | .synRcvd | .synSent | .established => false
  | _ => true

def maintainConns (l : Listener) (seen : List Seen) : Except Fault Listener := do
  let l := { l with accepted := deleteZeroed l.accepted }
  let (l, _) ← scan (ρ := Unit) (fun l i =>
    if (l.incoming.getD i {}).conn.isSome ∧ handshakeFailed (seen.getD i {}).state then do
      let l ← l.returnIncoming i
      .ok (l, none)
    else .ok (l, none)) l.incoming.length 0 l
  .ok { l with incoming := deleteZeroed l.incoming }

/-- The listener keeps its lists: Close only forgets the port. -/
def close (l : Listener) : Listener × Option ConnErr :=
  if l.isClosed then (l, some .netClosed)
  else ({ l with connID := l.connID + 1, port := 0 }, none)

def reset (l : Listener) (port : BitVec 16) : Listener × Option ConnErr :=
  if port = 0 then (l, some .other)
  else ({ l with accepted := [], incoming := [], connID := l.connID + 1, port := port }, none)

/-- seen is for the maintenance, ready for the search that follows it. -/
def tryAccept (l : Listener) (seen ready : List Seen) :
    Except Fault (Listener × Except ConnErr (ℕ × Option ℕ)) :=
  if l.isClosed then .ok (l, .error .netClosed)
  else do
    let l ← l.maintainConns seen
    match (List.range l.incoming.length).find? fun i =>
      (l.incoming.getD i {}).conn.isSome && (ready.getD i {}).state == .established with
    | none => .ok (l, .error .exhausted)
    | some i =>
      let entry := l.incoming.getD i {}
      .ok ({ l with accepted := l.accepted ++ [entry], incoming := l.incoming.set i {} },
        .ok (entry.conn.getD 0, entry.userData))

/-- A connection in its handshake gets the buffer at position i of incoming. -/
def encapsIncoming (seen : List Seen) (l : Listener) (i : ℕ) :
    Except Fault (Listener × Option (ℤ × Option ConnErr)) :=
  let v := seen.getD i {}
  if !(l.incoming.getD i {}).conn.isSome || v.state == .established then .ok (l, none)
  else do
    let (l, err) ← if v.err.isSome then l.maintainConn .incoming i v.err else .ok (l, v.err)
    .ok (l, if v.n = 0 then none else some (v.n, err))

/-- The same for accepted; the results of the last call stay in the loop's variables. -/
def encapsAccepted (seen : List Seen) (s : Listener × ℤ × Option ConnErr) (i : ℕ) :
    Except Fault ((Listener × ℤ × Option ConnErr) × Option Unit) :=
  let v := seen.getD i {}
  let entry := s.1.accepted.getD i {}
  if !entry.conn.isSome then .ok (s, none)
  else if v.connid ≠ entry.id then do
    let l ← s.1.returnAccepted i
    .ok ((l, s.2), none)
  else if 0 < v.n then .ok ((s.1, v.n, v.err), some ())
  else if v.err = some .netClosed then do
    let l ← s.1.returnAccepted i
    .ok ((l, v.n, none), none)
  else .ok ((s.1, v.n, v.err), none)

/-- drained is what the queue of resets writes when no connection does. -/
def encapsulate (l : Listener) (seenIncoming seenAccepted seenAfter : List Seen) (drained : ℤ) :
    Except Fault (Listener × ℤ × Option ConnErr) :=
  if l.isClosed then .ok (l, 0, some .netClosed)
  else do
    let (l, sent) ← scan (encapsIncoming seenIncoming) l.incoming.length 0 l
    match sent with
    | some (n, err) => .ok (l, n, err)
    | none =>
      let ((l, n, err), _) ← scan (encapsAccepted seenAccepted) l.accepted.length 0 (l, 0, none)
      let n := if n = 0 then drained else n
      let l ← if n = 0 then l.maintainConns seenAfter else .ok l
      .ok (l, n, err)

/-- The header of a received packet; valid when frame and addresses parse. -/
structure Packet where
  valid : Bool := true
  dst : BitVec 16
  src : BitVec 16
  srcaddr : List UInt8
  flags : Flags

def getConn (conns : List Entry) (seen : List Seen) (remotePort : BitVec 16)
    (remoteAddr : List UInt8) : Option ℕ :=
  (List.range conns.length).find? fun i =>
    (conns.getD i {}).conn.isSome && (seen.getD i {}).remotePort == remotePort &&
      (seen.getD i {}).remoteAddr == remoteAddr

def tryDemux (l : Listener) (side : Side) (seen : List Seen) (pkt : Packet) :
    Except Fault (Listener × Option (Option ConnErr)) :=
  match getConn (l.conns side) seen pkt.src pkt.srcaddr with
  | none => .ok (l, none)
  | some idx =>
    if (seen.getD idx {}).err.isSome then do
      let (l, err) ← l.maintainConn side idx (seen.getD idx {}).err
      .ok (l, some err)
    else .ok (l, some none)

/-- What a new connection answers: to OpenListen, to Demux, and its connection ID. -/
structure Fresh where
  openErr : Option ConnErr := none
  demuxErr : Option ConnErr := none
  id : BitVec 64 := 0

/-- A SYN of a stranger takes a connection out of the pool. -/
def demuxNew (l : Listener) (now : BitVec 64) (fresh : Fresh) :
    Except Fault (Listener × Option ConnErr) :=
  match l.poolGet now with
  | (l, none) => .ok (l, some .packetDrop)
  | (l, some (conn, userData, _)) =>
    if fresh.openErr.isSome then do
      let l ← l.poolReturn conn
      .ok (l, fresh.openErr)
    else if fresh.demuxErr.isSome then do
      let l ← l.poolReturn conn
      .ok (l, some .packetDrop)
    else
      .ok ({ l with incoming := l.incoming ++
        [{ conn := some conn, id := fresh.id, userData := userData }] }, none)

def demux (l : Listener) (pkt : Packet) (seenAccepted seenIncoming : List Seen)
    (now : BitVec 64) (fresh : Fresh) : Except Fault (Listener × Option ConnErr) :=
  if l.isClosed then .ok (l, some .netClosed)
  else if !pkt.valid then .ok (l, some .other)
  else if pkt.dst ≠ l.port then .ok (l, some .mismatch)
  else do
    let (l, inAccepted) ← l.tryDemux .accepted seenAccepted pkt
    match inAccepted with
    | some err => .ok (l, err)
    | none =>
      let (l, inIncoming) ← l.tryDemux .incoming seenIncoming pkt
      match inIncoming with
      | some err => .ok (l, err)
      | none =>
        if !Flags.hasAll pkt.flags flagSYN || Flags.hasAny pkt.flags flagACK then
          .ok (l, some .packetDrop)
        else l.demuxNew now fresh

end Listener

/-- The connections out of the pool after a call; none if one is handed out twice or put
back in vain. -/
def settle (out : List ℕ) : PoolCall → Option (List ℕ)
  | .got conn => if conn ∈ out then none else some (conn :: out)
  | .put conn => if conn ∈ out then some (out.erase conn) else none

def outstanding (history : List PoolCall) : Option (List ℕ) := history.foldlM settle []

theorem outstanding_append {history : List PoolCall} {out' : List ℕ} {call : PoolCall}
    (h : outstanding history = some out) (hcall : settle out call = some out') :
    outstanding (history ++ [call]) = some out' := by
  unfold outstanding at h ⊢
  rw [foldlM_append, h]
  simpa using hcall

/-- The pool's counter and marks agree with its history. -/
structure Books (l : Listener) (out : List ℕ) : Prop where
  history : outstanding l.history = some out
  nodup : out.Nodup
  count : l.pool.naqcuired = out.length
  taken : ∀ conn, conn ∈ out ↔ ∃ at', l.pool.acquiredAt[conn]? = some at' ∧ at' ≠ 0

namespace Listener

structure Same (l l' : Listener) : Prop where
  incoming : l'.incoming = l.incoming
  accepted : l'.accepted = l.accepted
  port : l'.port = l.port

theorem poolGet_books (hb : Books l out) (hnow : now ≠ 0) :
    l.poolGet now = (l, none) ∨ ∃ conn userData iss l', l.poolGet now =
      (l', some (conn, userData, iss)) ∧ Books l' (conn :: out) ∧ Same l l' := by
  unfold poolGet TCPPool.getTCP
  cases hfind : l.pool.acquiredAt.findIdx? (· == 0) with
  | none => exact .inl rfl
  | some conn =>
  obtain ⟨hlt, hzero, -⟩ := findIdx?_eq_some_iff_getElem.mp hfind
  rw [beq_iff_eq] at hzero
  have hfree : conn ∉ out := by
    intro hmem
    obtain ⟨at', hget, hne⟩ := (hb.taken conn).mp hmem
    rw [getElem?_eq_getElem hlt, hzero] at hget
    cases hget
    exact hne rfl
  refine .inr ⟨conn, _, _, _, rfl, ⟨?_, ?_, ?_, ?_⟩, rfl, rfl, rfl⟩
  · exact outstanding_append hb.history (by simp [settle, hfree])
  · exact nodup_cons.mpr ⟨hfree, hb.nodup⟩
  · simp [hb.count]
  intro c
  rw [mem_cons, hb.taken c, getElem?_set]
  by_cases hc : conn = c
  · subst hc
    simp only [true_or, if_true, hlt, true_iff]
    exact ⟨now, rfl, hnow⟩
  rw [if_neg hc]
  constructor
  · rintro (rfl | h)
    · exact absurd rfl hc
    · exact h
  · exact .inr

theorem poolReturn_books (hb : Books l out) (hmem : conn ∈ out) :
    Ensures (l.poolReturn conn) fun l' => Books l' (out.erase conn) ∧ Same l l' := by
  obtain ⟨at', hget, -⟩ := (hb.taken conn).mp hmem
  obtain ⟨hlt, -⟩ := List.getElem?_eq_some_iff.mp hget
  refine ⟨{ l with
    pool := { l.pool with
      acquiredAt := l.pool.acquiredAt.set conn 0
      naqcuired := l.pool.naqcuired - 1 }
    history := l.history ++ [.put conn] }, ?_, ⟨?_, ?_, ?_, ?_⟩, rfl, rfl, rfl⟩
  · simp [poolReturn, TCPPool.putTCP, hlt, bind, Except.bind]
  · exact outstanding_append hb.history (by simp [settle, hmem])
  · exact hb.nodup.erase conn
  · have hpos := length_pos_of_mem hmem
    simp only [hb.count, length_erase_of_mem hmem]
    omega
  intro c
  rw [hb.nodup.mem_erase_iff, hb.taken c, List.getElem?_set]
  by_cases hc : conn = c
  · subst hc
    simp [hlt]
  · rw [if_neg hc]
    exact and_iff_right (Ne.symm hc)

def held (l : Listener) : List ℕ := (l.incoming ++ l.accepted).filterMap Entry.conn

theorem Same.held {l' : Listener} (h : Same l l') : l'.held = l.held := by
  simp only [Listener.held, h.incoming, h.accepted]

/-- Everything out of the pool is in one of the lists, once. -/
def Sound (l : Listener) : Prop := ∃ out, Books l out ∧ out.Perm l.held

theorem filterMap_set_free {entries : List Entry} (h : (entries.getD idx {}).conn = some conn) :
    (entries.filterMap Entry.conn).Perm (conn :: (entries.set idx {}).filterMap Entry.conn) := by
  have hidx : idx < entries.length := by
    by_contra hge
    rw [getD_eq_default _ _ (by omega)] at h
    cases h
  rw [getD_eq_getElem _ _ hidx] at h
  have hsplit : entries = entries.take idx ++ entries[idx] :: entries.drop (idx + 1) := by
    rw [← drop_eq_getElem_cons hidx, take_append_drop]
  rw [set_eq_take_append_cons_drop, if_pos hidx]
  conv_lhs => rw [hsplit]
  simp only [filterMap_append, filterMap_cons, h]
  exact perm_middle

theorem held_free (side : Side) (h : ((l.conns side).getD idx {}).conn = some conn) :
    l.held.Perm (conn :: (l.setConns side ((l.conns side).set idx {})).held) := by
  cases side with
  | incoming =>
    simp only [held, filterMap_append]
    exact (filterMap_set_free h).append_right _
  | accepted =>
    simp only [held, filterMap_append]
    exact ((filterMap_set_free h).append_left _).trans perm_middle

theorem filterMap_deleteZeroed (entries : List Entry) :
    (deleteZeroed entries).filterMap Entry.conn = entries.filterMap Entry.conn := by
  induction entries with
  | nil => rfl
  | cons entry rest ih =>
  unfold deleteZeroed at ih ⊢
  by_cases hz : entry = {}
  · subst hz
    simpa using ih
  · rw [filter_cons_of_pos (by simpa using hz), filterMap_cons, filterMap_cons, ih]

variable (hs : l.Sound)
include hs

theorem returnConn_sound (side : Side) (hsome : ((l.conns side).getD idx {}).conn.isSome) :
    Ensures (l.returnConn side idx) fun l' => l'.Sound ∧ l'.port = l.port := by
  obtain ⟨conn, hconn⟩ := Option.isSome_iff_exists.mp hsome
  obtain ⟨out, hb, hperm⟩ := hs
  have hheld := held_free side hconn
  have hmem : conn ∈ out := hperm.mem_iff.mpr (hheld.mem_iff.mpr mem_cons_self)
  unfold returnConn
  rw [hconn]
  apply (poolReturn_books hb hmem).bind
  rintro l' ⟨hb', hsame⟩
  refine .pure ⟨⟨out.erase conn, ?_, ?_⟩, ?_⟩
  · cases side <;> exact ⟨hb'.history, hb'.nodup, hb'.count, hb'.taken⟩
  · have hnext := (hperm.trans hheld).erase conn
    rw [erase_cons_head] at hnext
    refine hnext.trans (Perm.of_eq ?_)
    cases side <;> simp only [held, setConns, conns, hsame.incoming, hsame.accepted]
  · cases side <;> exact hsame.port

theorem maintainConn_sound (side : Side)
    (hsome : ((l.conns side).getD idx {}).conn.isSome) (err : Option ConnErr) :
    Ensures (l.maintainConn side idx err) fun r => r.1.Sound ∧ r.1.port = l.port := by
  unfold maintainConn
  split_ifs
  · apply (returnConn_sound hs side hsome).bind
    intro l' hl'
    exact .pure hl'
  · exact .pure ⟨hs, rfl⟩

theorem maintainConns_sound (seen : List Seen) :
    Ensures (l.maintainConns seen) fun l' => l'.Sound ∧ l'.port = l.port := by
  have hfirst : Sound { l with accepted := deleteZeroed l.accepted } := by
    obtain ⟨out, hb, hperm⟩ := hs
    refine ⟨out, ⟨hb.history, hb.nodup, hb.count, hb.taken⟩, ?_⟩
    simpa only [held, filterMap_append, filterMap_deleteZeroed] using hperm
  refine (scan_ensures (I := fun l' => l'.Sound ∧ l'.port = l.port) ?_ _ 0 _ ⟨hfirst, rfl⟩).bind ?_
  · rintro l1 i ⟨h1, hport⟩
    split_ifs with hfail
    · apply (returnConn_sound h1 .incoming hfail.1).bind
      rintro l2 ⟨h2, hport2⟩
      exact .pure ⟨h2, hport2.trans hport⟩
    · exact .pure ⟨h1, hport⟩
  rintro ⟨l1, _⟩ ⟨⟨out, hb, hperm⟩, hport⟩
  refine .pure ⟨⟨out, ⟨hb.history, hb.nodup, hb.count, hb.taken⟩, ?_⟩, hport⟩
  simpa only [held, filterMap_append, filterMap_deleteZeroed] using hperm

theorem tryAccept_sound (seen ready : List Seen) :
    Ensures (l.tryAccept seen ready) fun r => r.1.Sound ∧ r.1.port = l.port := by
  unfold tryAccept
  split_ifs
  · exact .pure ⟨hs, rfl⟩
  apply (maintainConns_sound hs seen).bind
  rintro l1 ⟨h1, hport⟩
  cases hfind : (range l1.incoming.length).find? fun i =>
      (l1.incoming.getD i {}).conn.isSome && (ready.getD i {}).state == .established with
  | none => exact .pure ⟨h1, hport⟩
  | some i =>
    have hready := find?_some hfind
    rw [Bool.and_eq_true] at hready
    obtain ⟨conn, hconn⟩ := Option.isSome_iff_exists.mp hready.1
    obtain ⟨out, hb, hperm⟩ := h1
    refine .pure ⟨⟨out, ⟨hb.history, hb.nodup, hb.count, hb.taken⟩, hperm.trans ?_⟩, hport⟩
    -- the entry leaves one list and joins the other
    refine (held_free .incoming hconn).trans ?_
    simp only [held, setConns, conns, filterMap_append, filterMap_cons, hconn,
      filterMap_nil, ← append_assoc]
    exact (perm_append_singleton conn _).symm

theorem encapsIncoming_sound (seen : List Seen) (i : ℕ) :
    Ensures (encapsIncoming seen l i) fun r => r.1.Sound ∧ r.1.port = l.port := by
  unfold encapsIncoming
  by_cases hskip : (!(l.incoming.getD i {}).conn.isSome || (seen.getD i {}).state == .established)
  · simp only [if_pos hskip]
    exact .pure ⟨hs, rfl⟩
  simp only [if_neg hskip]
  have hsome : (l.incoming.getD i {}).conn.isSome := by
    rw [Bool.or_eq_true, not_or, Bool.not_eq_true, Bool.not_eq_false'] at hskip
    exact hskip.1
  split
  · exact (maintainConn_sound hs .incoming hsome _).bind fun _ hr => .pure hr
  · exact .pure ⟨hs, rfl⟩

omit hs in
theorem encapsAccepted_sound {s : Listener × ℤ × Option ConnErr} (hs : s.1.Sound) (seen : List Seen)
    (i : ℕ) : Ensures (encapsAccepted seen s i) fun r => r.1.1.Sound ∧ r.1.1.port = s.1.port := by
  unfold encapsAccepted
  simp only []
  split_ifs with hnone
  · exact .pure ⟨hs, rfl⟩
  all_goals rw [Bool.not_eq_true, Bool.not_eq_false'] at hnone
  · exact (returnConn_sound hs .accepted hnone).bind fun _ hr => .pure hr
  · exact .pure ⟨hs, rfl⟩
  · exact (returnConn_sound hs .accepted hnone).bind fun _ hr => .pure hr
  · exact .pure ⟨hs, rfl⟩

theorem encapsulate_sound (seenIncoming seenAccepted seenAfter : List Seen)
    (drained : ℤ) : Ensures (l.encapsulate seenIncoming seenAccepted seenAfter drained) fun r =>
      r.1.Sound ∧ r.1.port = l.port := by
  unfold encapsulate
  split
  · exact .pure ⟨hs, rfl⟩
  refine (scan_ensures (I := fun l' : Listener => l'.Sound ∧ l'.port = l.port) ?_ _ 0 l
    ⟨hs, rfl⟩).bind ?_
  · rintro l1 i ⟨h1, hport⟩
    exact (encapsIncoming_sound h1 seenIncoming i).mono fun _ hr => ⟨hr.1, hr.2.trans hport⟩
  rintro ⟨l1, sent⟩ ⟨h1, hport1⟩
  cases sent with
  | some sent => exact .pure ⟨h1, hport1⟩
  | none =>
  refine (scan_ensures (I := fun s => s.1.Sound ∧ s.1.port = l.port) ?_ _ 0 _ ⟨h1, hport1⟩).bind ?_
  · rintro s i ⟨h2, hport⟩
    exact (encapsAccepted_sound h2 seenAccepted i).mono fun _ hr => ⟨hr.1, hr.2.trans hport⟩
  rintro ⟨⟨l2, n, err⟩, _⟩ ⟨h2, hport2⟩
  simp only [] at h2 hport2 ⊢
  generalize (if n = 0 then drained else n) = m
  split
  · apply (maintainConns_sound h2 seenAfter).bind
    intro l3 h3
    exact .pure ⟨h3.1, h3.2.trans hport2⟩
  · exact .pure ⟨h2, hport2⟩

theorem tryDemux_sound (side : Side) (seen : List Seen) (pkt : Packet) :
    Ensures (l.tryDemux side seen pkt) fun r => r.1.Sound ∧ r.1.port = l.port := by
  unfold tryDemux
  cases hfind : getConn (l.conns side) seen pkt.src pkt.srcaddr with
  | none => exact .pure ⟨hs, rfl⟩
  | some idx =>
  have hmatch := find?_some hfind
  rw [Bool.and_eq_true, Bool.and_eq_true] at hmatch
  simp only []
  split_ifs
  · exact (maintainConn_sound hs side hmatch.1.1 _).bind fun _ hr => .pure hr
  · exact .pure ⟨hs, rfl⟩

theorem demuxNew_sound (hnow : now ≠ 0) (fresh : Fresh) :
    Ensures (l.demuxNew now fresh) fun r => r.1.Sound ∧ r.1.port = l.port := by
  obtain ⟨out, hb, hperm⟩ := hs
  unfold demuxNew
  rcases poolGet_books hb hnow with hget | ⟨conn, userData, iss, l1, hget, hb1, hsame⟩
  · rw [hget]
    exact .pure ⟨⟨out, hb, hperm⟩, rfl⟩
  rw [hget]
  -- a connection that cannot be opened goes straight back
  have hback : Ensures (l1.poolReturn conn) fun l' => l'.Sound ∧ l'.port = l.port := by
    refine (poolReturn_books hb1 mem_cons_self).mono ?_
    rintro l2 ⟨hb2, hsame2⟩
    rw [erase_cons_head] at hb2
    refine ⟨⟨out, hb2, ?_⟩, hsame2.port.trans hsame.port⟩
    rw [hsame2.held, hsame.held]
    exact hperm
  split_ifs
  · exact hback.bind fun _ hr => .pure hr
  · exact hback.bind fun _ hr => .pure hr
  refine .pure ⟨⟨conn :: out, ⟨hb1.history, hb1.nodup, hb1.count, hb1.taken⟩, ?_⟩, hsame.port⟩
  simp only [held, hsame.incoming, hsame.accepted, filterMap_append, filterMap_cons,
    append_assoc, singleton_append] at hperm ⊢
  exact (hperm.cons conn).trans perm_middle.symm

theorem demux_sound (pkt : Packet) (seenAccepted seenIncoming : List Seen)
    (hnow : now ≠ 0) (fresh : Fresh) :
    Ensures (l.demux pkt seenAccepted seenIncoming now fresh) fun r =>
      r.1.Sound ∧ r.1.port = l.port := by
  unfold demux
  split
  · exact .pure ⟨hs, rfl⟩
  split
  · exact .pure ⟨hs, rfl⟩
  split
  · exact .pure ⟨hs, rfl⟩
  apply (tryDemux_sound hs .accepted seenAccepted pkt).bind
  rintro ⟨l1, found⟩ ⟨h1, hport1⟩
  cases found with
  | some err => exact .pure ⟨h1, hport1⟩
  | none =>
  apply (tryDemux_sound h1 .incoming seenIncoming pkt).bind
  rintro ⟨l2, found⟩ ⟨h2, hport2⟩
  cases found with
  | some err => exact .pure ⟨h2, hport2.trans hport1⟩
  | none =>
  split_ifs
  · exact .pure ⟨h2, hport2.trans hport1⟩
  · exact (demuxNew_sound h2 hnow fresh).mono fun _ hr =>
      ⟨hr.1, hr.2.trans (hport2.trans hport1)⟩

end Listener

open Listener

inductive ListenerOp where
  | demux (pkt : Listener.Packet) (seenAccepted seenIncoming : List Seen) (now : BitVec 64)
      (fresh : Listener.Fresh)
  | tryAccept (seen ready : List Seen)
  | encapsulate (seenIncoming seenAccepted seenAfter : List Seen) (drained : ℤ)
  | close
  | reset (port : BitVec 16)

def step (l : Listener) : ListenerOp → Except Fault Listener
  | .demux pkt seenAccepted seenIncoming now fresh =>
    (l.demux pkt seenAccepted seenIncoming now fresh).map Prod.fst
  | .tryAccept seen ready => (l.tryAccept seen ready).map Prod.fst
  | .encapsulate seenIncoming seenAccepted seenAfter drained =>
    (l.encapsulate seenIncoming seenAccepted seenAfter drained).map Prod.fst
  | .close => .ok l.close.1
  | .reset port => .ok (l.reset port).1

/-- The pool's clock does not read zero, and a listener is closed or reset only when it
holds no connection. -/
def Regular (l : Listener) : ListenerOp → Prop
  | .demux _ _ _ now _ => now ≠ 0
  | .tryAccept _ _ | .encapsulate _ _ _ _ => True
  | .close => l.held = []
  | .reset port => port ≠ 0 → l.held = []

instance (l : Listener) (op : ListenerOp) : Decidable (Regular l op) := by
  unfold Regular
  cases op <;> infer_instance

def start (userData : List ℕ) : Listener := { pool := .new userData }

structure Kept (l : Listener) : Prop where
  sound : l.Sound
  closed : l.port = 0 → l.held = []

theorem start_kept (userData : List ℕ) : Kept (start userData) := by
  refine ⟨⟨[], ⟨rfl, nodup_nil, rfl, fun conn => ?_⟩, Perm.refl _⟩, fun _ => rfl⟩
  simp [start, TCPPool.new, getElem?_replicate]

theorem ensures_map_fst {α β : Type} {r : Except Fault (α × β)} {P : α → Prop}
    (h : Ensures r fun a => P a.1) : Ensures (r.map Prod.fst) P := by
  obtain ⟨a, rfl, ha⟩ := h
  exact .pure ha

theorem kept_of_sound {β : Type} (hk : Kept l) {r : Except Fault (Listener × β)}
    (hclosed : l.isClosed → ∃ b, r = .ok (l, b))
    (hcall : Ensures r fun a => a.1.Sound ∧ a.1.port = l.port) : Ensures (r.map Prod.fst) Kept := by
  apply ensures_map_fst
  cases hc : l.isClosed with
  | true =>
    obtain ⟨b, rfl⟩ := hclosed hc
    exact .pure hk
  | false =>
  refine hcall.mono fun a ha => ⟨ha.1, fun hp => ?_⟩
  rw [ha.2] at hp
  simp [isClosed, hp] at hc

theorem step_kept {op : ListenerOp} (hk : Kept l) (hreg : Regular l op) :
    Ensures (step l op) Kept := by
  have hs := hk.sound
  cases op with
  | demux pkt seenAccepted seenIncoming now fresh =>
    refine kept_of_sound hk (fun hc => ?_) (demux_sound hs pkt seenAccepted seenIncoming hreg fresh)
    exact ⟨_, by rw [demux, if_pos hc]⟩
  | tryAccept seen ready =>
    refine kept_of_sound hk (fun hc => ?_) (tryAccept_sound hs seen ready)
    exact ⟨_, by rw [tryAccept, if_pos hc]⟩
  | encapsulate seenIncoming seenAccepted seenAfter drained =>
    refine kept_of_sound hk (fun hc => ?_)
      (encapsulate_sound hs seenIncoming seenAccepted seenAfter drained)
    exact ⟨_, by rw [encapsulate, if_pos hc]⟩
  | close =>
    refine .pure ?_
    unfold close
    split_ifs
    · exact hk
    · obtain ⟨out, hb, hperm⟩ := hs
      exact ⟨⟨out, ⟨hb.history, hb.nodup, hb.count, hb.taken⟩, hperm⟩, fun _ => hreg⟩
  | reset port =>
  refine .pure ?_
  unfold reset
  split_ifs with hport
  · exact hk
  obtain ⟨out, hb, hperm⟩ := hs
  rw [hreg hport] at hperm
  exact ⟨⟨out, ⟨hb.history, hb.nodup, hb.count, hb.taken⟩, hperm⟩, fun _ => rfl⟩

/-- In a regular run no connection is handed out or put back twice, what is out is in
exactly one list, a closed listener has given all back, the pool counts right, and the
next regular call returns. -/
theorem acquisitions_conserved (userData : List ℕ) (ops : List ListenerOp) (l : Listener)
    (hops : Guarded step Regular (start userData) ops)
    (hrun : exec step (start userData) ops = .ok l) :
    ∃ out, outstanding l.history = some out ∧ out.Perm l.held ∧ l.held.Nodup ∧
      l.pool.naqcuired = out.length ∧ (l.port = 0 → out = []) ∧
      ∀ op, Regular l op → ∃ l', step l op = .ok l' := by
  have hk : Kept l := exec_invariant (fun _ _ _ h hreg hstep => (step_kept h hreg).of_ok hstep)
    ops _ l (start_kept userData) hops hrun
  obtain ⟨out, hb, hperm⟩ := hk.sound
  refine ⟨out, hb.history, hperm, hperm.nodup_iff.mp hb.nodup, hb.count, fun hport => ?_, ?_⟩
  · rw [hk.closed hport] at hperm
    exact hperm.eq_nil
  intro op hreg
  obtain ⟨l', hl', -⟩ := step_kept hk hreg
  exact ⟨l', hl'⟩

def synFrom (src : BitVec 16) : Listener.Packet :=
  { dst := 80, src := src, srcaddr := [10, 0, 0, 1], flags := flagSYN }

def acceptOps (now : BitVec 64) : List ListenerOp :=
  [.reset 80, .demux (synFrom 1234) [] [] now {}]

theorem acquisitions_conserved_accepted :
    ∃ l out, exec step (start [0, 0]) (acceptOps 5 ++ [.tryAccept [{ state := .established }]
        [{ state := .established }]]) = .ok l ∧ l.held = [0] ∧
      outstanding l.history = some out ∧ out.Perm l.held ∧ l.pool.naqcuired = out.length := by
  obtain ⟨l, hrun, hheld⟩ : ∃ l, exec step (start [0, 0]) (acceptOps 5 ++
      [.tryAccept [{ state := .established }] [{ state := .established }]]) = .ok l ∧
      l.held = [0] := exists_exec (by decide +kernel)
  obtain ⟨out, hout, hperm, -, hcount, -⟩ :=
    acquisitions_conserved [0, 0] _ l (by decide +kernel) hrun
  exact ⟨l, out, hrun, hheld, hout, hperm, hcount⟩

/-- At time zero a second SYN gets the connection of the first, which does not open again and
is put back while it is in the list, so that a third SYN gets it, too. Reset forgets one that
is out. -/
theorem acquisitions_lost :
    (∃ l, exec step (start [0, 0]) (acceptOps 0 ++
        [.demux (synFrom 99) []
            [{ state := .synRcvd, remotePort := 1234, remoteAddr := [10, 0, 0, 1] }] 0
            { openErr := some .other },
          .demux (synFrom 98) [] [{}] 0 {}]) = .ok l ∧
      l.held = [0, 0] ∧ outstanding l.history = none ∧ l.pool.naqcuired = 2) ∧
    ∃ l, exec step (start [0, 0]) (acceptOps 5 ++ [.close, .reset 80]) = .ok l ∧
      l.held = [] ∧ outstanding l.history = some [0] ∧ l.pool.naqcuired = 1 :=
  ⟨exists_exec (by decide +kernel), exists_exec (by decide +kernel)⟩

end Lneto.ListenerPool
