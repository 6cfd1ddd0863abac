import Lneto.GuardedRuns
import Mathlib.Data.UInt
import Mathlib.Tactic.Common

/-!
The node table of a stack. Nodes are registered by port and protocol and turn
invalid when destroyed or when their connection ID moves on; a cursor goes round
to share out transmissions. Callbacks answer with a reply and may move
connection IDs meanwhile.
-/
namespace Lneto.StackNodes

open GuardedRuns List

variable {i len : ℕ}

/-- The errors the table tells apart; `other` is any further error of a callback. -/
inductive NodeErr where
  | alreadyRegistered
  | exhausted
  | packetDrop
  | netClosed
  | other
deriving DecidableEq, Repr

inductive Fault where
  | indexOutOfRange
deriving DecidableEq, Repr

abbrev ConnIDs := ℕ → BitVec 64

variable {ids : ConnIDs}

/-- The owner of a connection ID moves on to its next connection. -/
def ConnIDs.bump (ids : ConnIDs) (p : ℕ) : ConnIDs := Function.update ids p (ids p + 1)

structure Node where
  currConnID : BitVec 64 := 0
  connID : Option ℕ := none
  callbacks : Option ℕ := none
  proto : BitVec 16 := 0
  lport : BitVec 16 := 0
deriving DecidableEq, Repr

variable {node : Node}

def Node.isInvalid (ids : ConnIDs) (node : Node) : Bool :=
  node.callbacks.isNone || node.connID.any fun p => node.currConnID != ids p

/-- The slice of nodes with its capacity, and the index of the next node to send. -/
structure Handlers where
  nodes : List Node := []
  cap : ℕ := 0
  encapsIdx : ℕ := 0
  fits : nodes.length ≤ cap := by simp

variable {h : Handlers}

def incLim (v max : ℕ) : ℕ := if v + 1 = max then 0 else v + 1

namespace Handlers

/-- slices.Grow allocates only when the capacity falls short, with some slack. -/
def reset (h : Handlers) (maxNodes slack : ℕ) : Handlers :=
  { nodes := []
    cap := if maxNodes ≤ h.cap then h.cap else maxNodes + slack
    encapsIdx := h.encapsIdx
    fits := Nat.zero_le _ }

def full (h : Handlers) : Bool := h.cap == h.nodes.length

/-- The loop of compact: valid nodes move down to nilOff. -/
def compactLoop (ids : ConnIDs) : ℕ → List Node → ℕ → ℕ → List Node
  | 0, nodes, nilOff, _ => nodes.take nilOff
  | rounds + 1, nodes, nilOff, i =>
    match nodes[i]? with
    | none => nodes.take nilOff
    | some node =>
      if node.isInvalid ids then compactLoop ids rounds nodes nilOff (i + 1)
      else compactLoop ids rounds (nodes.set nilOff node) (nilOff + 1) (i + 1)

theorem compactLoop_eq (ids : ConnIDs) (rounds : ℕ) : ∀ (nodes : List Node) (nilOff i : ℕ),
    nilOff ≤ i → nodes.length = i + rounds → compactLoop ids rounds nodes nilOff i =
      nodes.take nilOff ++ (nodes.drop i).filter fun node => !node.isInvalid ids := by
  induction rounds with
  | zero =>
    intro nodes nilOff i _ hlen
    simp [compactLoop, drop_of_length_le (show nodes.length ≤ i by omega)]
  | succ rounds ih =>
  intro nodes nilOff i hle hlen
  have hi : i < nodes.length := by omega
  have hdrop : nodes.drop i = nodes[i] :: nodes.drop (i + 1) := drop_eq_getElem_cons hi
  simp only [compactLoop, getElem?_eq_getElem hi, hdrop, filter_cons]
  cases hinv : nodes[i].isInvalid ids with
  | true =>
    exact ih nodes nilOff (i + 1) (by omega) (by omega)
  | false =>
  rw [ih _ (nilOff + 1) (i + 1) (by omega) (by simp; omega)]
  -- the write at nilOff is behind everything still to be read
  have hread : (nodes.set nilOff nodes[i]).drop (i + 1) = nodes.drop (i + 1) := by
    rw [drop_set_of_lt (by omega)]
  have hkept : (nodes.set nilOff nodes[i]).take (nilOff + 1) =
      nodes.take nilOff ++ [nodes[i]] := by
    rw [take_add_one, take_set_of_le le_rfl]
    simp [show nilOff < nodes.length by omega]
  rw [hread, hkept, append_assoc]
  rfl

theorem compactLoop_all (ids : ConnIDs) (nodes : List Node) :
    compactLoop ids nodes.length nodes 0 0 = nodes.filter fun node => !node.isInvalid ids := by
  rw [compactLoop_eq ids nodes.length nodes 0 0 le_rfl (by omega)]
  simp

def compact (ids : ConnIDs) (h : Handlers) : Handlers :=
  { h with
    nodes := compactLoop ids h.nodes.length h.nodes 0 0
    fits := by
      rw [compactLoop_all]
      exact (List.length_filter_le _ _).trans h.fits }

def nodeByProto (ids : ConnIDs) (h : Handlers) (proto : BitVec 16) : Option ℕ :=
  h.nodes.findIdx? fun node => node.proto == proto && !node.isInvalid ids

def nodeByPort (ids : ConnIDs) (h : Handlers) (port : BitVec 16) : Option ℕ :=
  h.nodes.findIdx? fun node => node.lport == port && !node.isInvalid ids

def nodeByPortProto (ids : ConnIDs) (h : Handlers) (port protocol : BitVec 16) : Option ℕ :=
  h.nodes.findIdx? fun node => node.lport == port && node.proto == protocol && !node.isInvalid ids

def prepAdd (ids : ConnIDs) (h : Handlers) : Handlers × Option NodeErr :=
  if h.full then
    let h := h.compact ids
    if h.full then (h, some .exhausted) else (h, none)
  else (h, none)

def append (h : Handlers) (node : Node) (hroom : h.full = false) : Handlers :=
  { h with
    nodes := h.nodes ++ [node]
    fits := by
      have hfits := h.fits
      rw [full, beq_eq_false_iff_ne] at hroom
      simp only [List.length_append, List.length_singleton]
      omega }

theorem prepAdd_room (hok : (h.prepAdd ids).2 = none) : (h.prepAdd ids).1.full = false := by
  unfold prepAdd at hok ⊢
  cases hfull : h.full with
  | false => simpa using hfull
  | true =>
  cases hagain : (h.compact ids).full with
  | true => simp [hfull, hagain] at hok
  | false => simp [hagain]

/-- The two registrations differ in the lookup that must come back empty. -/
def register (ids : ConnIDs) (h : Handlers) (lookup : Handlers → Option ℕ) (node : Node) :
    Handlers × Option NodeErr :=
  if hok : (h.prepAdd ids).2 = none then
    if (lookup (h.prepAdd ids).1).isSome then ((h.prepAdd ids).1, some .alreadyRegistered)
    else ((h.prepAdd ids).1.append node (prepAdd_room hok), none)
  else h.prepAdd ids

def registerByProto (ids : ConnIDs) (h : Handlers) (node : Node) : Handlers × Option NodeErr :=
  h.register ids (fun h => h.nodeByProto ids node.proto) node

def registerByPortProto (ids : ConnIDs) (h : Handlers) (node : Node) :
    Handlers × Option NodeErr :=
  h.register ids (fun h => h.nodeByPortProto ids node.lport node.proto) node

def destroy (h : Handlers) (i : ℕ) : Handlers :=
  { h with
    nodes := h.nodes.set i {}
    fits := by
      rw [List.length_set]
      exact h.fits }

def tryHandleError (ids : ConnIDs) (h : Handlers) (i : ℕ) (node : Node) (err : Option NodeErr) :
    Handlers × Bool :=
  if err.isSome && (err == some .netClosed || node.isInvalid ids) then (h.destroy i, true)
  else (h, false)

end Handlers

/-- The answer of a callback, with the connection IDs that moved on during the call. -/
structure Reply where
  n : ℤ := 0
  err : Option NodeErr := none
  moved : List ℕ := []
deriving DecidableEq, Repr

structure Table where
  h : Handlers := {}
  ids : ConnIDs := fun _ => 0

variable {t t' : Table}

structure Report where
  node : Option ℕ := none
  n : ℤ := 0
  err : Option NodeErr := none
deriving DecidableEq, Repr

namespace Table

/-- The callback of a node runs; an error that closes the node destroys it. -/
def call (t : Table) (i : ℕ) (node : Node) (reply : Reply) : Table × Option NodeErr :=
  let ids := reply.moved.foldl ConnIDs.bump t.ids
  let (h, handled) := t.h.tryHandleError ids i node reply.err
  ({ h := h, ids := ids }, if handled then none else reply.err)

def demuxNode (t : Table) (found : Option ℕ) (reply : Reply) : Table × Option NodeErr :=
  match found with
  | none => (t, some .packetDrop)
  | some i =>
    match t.h.nodes[i]? with
    | none => (t, some .packetDrop)
    | some node => t.call i node reply

def demuxByProto (t : Table) (proto : BitVec 16) (reply : Reply) : Table × Option NodeErr :=
  t.demuxNode (t.h.nodeByProto t.ids proto) reply

def demuxByPort (t : Table) (port : BitVec 16) (reply : Reply) : Table × Option NodeErr :=
  t.demuxNode (t.h.nodeByPort t.ids port) reply

/-- An error without output is only logged. -/
def encapsulateNode (t : Table) (i : ℕ) (node : Node) (reply : Reply) :
    Table × ℤ × Option NodeErr :=
  if node.isInvalid t.ids then (t, 0, none)
  else
    let (t, err) := t.call i node reply
    if 0 < reply.n then (t, reply.n, err) else (t, 0, none)

/-- The turns of a sweep: each node's index and whether it was offered the buffer. -/
abbrev Turns := List (ℕ × Bool)

/-- The loop from index i. Replies are used up by the nodes offered the buffer; a
missing one is that of an idle node. -/
def encapsulateLoop : ℕ → Table → ℕ → List Reply → Except Fault (Table × Turns × Report)
  | 0, t, _, _ => .ok (t, [], {})
  | rounds + 1, t, i, replies =>
    match t.h.nodes[i]? with
    | none => .error .indexOutOfRange
    | some node =>
      let offered := !node.isInvalid t.ids
      let (t, n, err) := t.encapsulateNode i node (replies.headD {})
      let next := incLim i t.h.nodes.length
      if 0 < n ∨ err ≠ none then
        .ok ({ t with h := { t.h with encapsIdx := next } }, [(i, offered)],
          { node := some i, n := n, err := err })
      else
        match encapsulateLoop rounds t next (if offered then replies.tail else replies) with
        | .error p => .error p
        | .ok (t, turns, report) => .ok (t, (i, offered) :: turns, report)

def encapsulateAny (t : Table) (replies : List Reply) : Except Fault (Table × Turns × Report) :=
  encapsulateLoop t.h.nodes.length t t.h.encapsIdx replies

end Table

inductive Op where
  | reset (maxNodes slack : ℕ)
  | registerByProto (node : Node)
  | registerByPortProto (node : Node)
  | demuxByProto (proto : BitVec 16) (reply : Reply)
  | demuxByPort (port : BitVec 16) (reply : Reply)
  | encapsulateAny (replies : List Reply)
  | invalidate (p : ℕ)
deriving DecidableEq, Repr

def step (t : Table) : Op → Except Fault Table
  | .reset maxNodes slack => .ok { t with h := t.h.reset maxNodes slack }
  | .registerByProto node => .ok { t with h := (t.h.registerByProto t.ids node).1 }
  | .registerByPortProto node => .ok { t with h := (t.h.registerByPortProto t.ids node).1 }
  | .demuxByProto proto reply => .ok (t.demuxByProto proto reply).1
  | .demuxByPort port reply => .ok (t.demuxByPort port reply).1
  | .encapsulateAny replies => (t.encapsulateAny replies).map Prod.fst
  | .invalidate p => .ok { t with ids := t.ids.bump p }

/-- Two nodes that do not share port and protocol while both are valid. -/
def Apart (ids : ConnIDs) (a b : Node) : Prop :=
  a.isInvalid ids = false → b.isInvalid ids = false → ¬ (a.lport = b.lport ∧ a.proto = b.proto)

/-- Every node is where it was or was destroyed in place. -/
structure Zeroed (nodes nodes' : List Node) : Prop where
  length : nodes'.length = nodes.length
  get : ∀ i : ℕ, nodes'[i]? = nodes[i]? ∨ nodes'[i]? = some ({} : Node)

open Zeroed hiding length

theorem Zeroed.refl (nodes : List Node) : Zeroed nodes nodes := ⟨rfl, fun _ => .inl rfl⟩

theorem Zeroed.trans {a b c : List Node} (hab : Zeroed a b) (hbc : Zeroed b c) : Zeroed a c := by
  refine ⟨hbc.length.trans hab.length, fun i => ?_⟩
  rcases hbc.get i with h | h
  · rw [h]
    exact hab.get i
  · exact .inr h

def Kept (ids ids' : ConnIDs) (nodes : List Node) : Prop :=
  ∀ node ∈ nodes, node.isInvalid ids = true → node.isInvalid ids' = true

instance (ids ids' : ConnIDs) (nodes : List Node) : Decidable (Kept ids ids' nodes) :=
  inferInstanceAs (Decidable (∀ node ∈ nodes, _ → _))

theorem Kept.valid {ids' : ConnIDs} {nodes : List Node} (h : Kept ids ids' nodes)
    (hmem : node ∈ nodes) (hvalid : node.isInvalid ids' = false) : node.isInvalid ids = false := by
  cases hinv : node.isInvalid ids with
  | false => rfl
  | true => rw [h node hmem hinv] at hvalid; cases hvalid

/-- Destroying nodes and losing connections keeps the valid nodes apart. -/
theorem Zeroed.apart {ids' : ConnIDs} {nodes nodes' : List Node} (hz : Zeroed nodes nodes')
    (hkept : Kept ids ids' nodes) (h : nodes.Pairwise (Apart ids)) :
    nodes'.Pairwise (Apart ids') := by
  -- a valid node of the new table is the old one of its index, and was valid before
  have hsame : ∀ (i : ℕ) (hi : i < nodes'.length), nodes'[i].isInvalid ids' = false →
      ∃ hi' : i < nodes.length, nodes'[i] = nodes[i] ∧ nodes[i].isInvalid ids = false := by
    intro i hi hvalid
    have hi' : i < nodes.length := by rw [← hz.length]; exact hi
    rcases hz.get i with heq | heq
    · rw [getElem?_eq_getElem hi, getElem?_eq_getElem hi', Option.some.injEq] at heq
      rw [heq] at hvalid
      exact ⟨hi', heq, hkept.valid (getElem_mem hi') hvalid⟩
    rw [getElem?_eq_getElem hi, Option.some.injEq] at heq
    rw [heq] at hvalid
    cases hvalid
  rw [pairwise_iff_getElem] at h ⊢
  intro i j hi hj hij hvi hvj
  obtain ⟨hi', heqi, holdi⟩ := hsame i hi hvi
  obtain ⟨hj', heqj, holdj⟩ := hsame j hj hvj
  rw [heqi, heqj]
  exact h i j hi' hj' hij holdi holdj

namespace Handlers

theorem tryHandleError_zeroed (ids : ConnIDs) (h : Handlers) (i : ℕ) (node : Node)
    (err : Option NodeErr) : Zeroed h.nodes (h.tryHandleError ids i node err).1.nodes ∧
      (h.tryHandleError ids i node err).1.encapsIdx = h.encapsIdx ∧
      ∀ j ≠ i, (h.tryHandleError ids i node err).1.nodes[j]? = h.nodes[j]? := by
  unfold tryHandleError
  split_ifs
  · refine ⟨⟨length_set, fun j => ?_⟩, rfl, fun j hj => getElem?_set_ne hj.symm⟩
    simp only [destroy, getElem?_set]
    split_ifs with hij hlen
    · exact .inr rfl
    · exact .inl (by rw [getElem?_eq_none (by omega)])
    · exact .inl rfl
  · exact ⟨refl _, rfl, fun _ _ => rfl⟩

theorem compact_nodes (ids : ConnIDs) (h : Handlers) :
    (h.compact ids).nodes = h.nodes.filter fun node => !node.isInvalid ids :=
  compactLoop_all ids h.nodes

theorem prepAdd_nodes (ids : ConnIDs) (h : Handlers) :
    (h.prepAdd ids).1.nodes.Sublist h.nodes ∧ (h.prepAdd ids).1.encapsIdx = h.encapsIdx ∧
      (h.full = false → (h.prepAdd ids).1.nodes = h.nodes) ∧
      (h.full → (h.prepAdd ids).1.nodes.length =
        h.nodes.countP fun node => !node.isInvalid ids) := by
  have hsub : (h.compact ids).nodes.Sublist h.nodes := by
    rw [compact_nodes]
    exact filter_sublist
  unfold prepAdd
  cases hfull : h.full with
  | false => exact ⟨Sublist.refl _, rfl, fun _ => rfl, by simp⟩
  | true =>
  simp only [if_true]
  split_ifs
  all_goals exact ⟨hsub, rfl, by simp, fun _ => by rw [compact_nodes, countP_eq_length_filter]⟩

theorem register_apart {lookup : Handlers → Option ℕ}
    (hlookup : ∀ h', lookup h' = none → ∀ other ∈ h'.nodes, Apart ids other node)
    (happart : h.nodes.Pairwise (Apart ids)) :
    (h.register ids lookup node).1.nodes.Pairwise (Apart ids) ∧
      (h.register ids lookup node).1.encapsIdx = h.encapsIdx ∧
      (if h.full then h.nodes.countP fun node => !node.isInvalid ids else h.nodes.length) ≤
        (h.register ids lookup node).1.nodes.length := by
  obtain ⟨hsub, hidx, hsame, hvalid⟩ := h.prepAdd_nodes ids
  have hold := happart.sublist hsub
  have hlen : (if h.full then h.nodes.countP fun node => !node.isInvalid ids
      else h.nodes.length) = (h.prepAdd ids).1.nodes.length := by
    cases hfull : h.full with
    | true => exact (hvalid hfull).symm
    | false => exact (congrArg length (hsame hfull)).symm
  rw [hlen]
  unfold register
  split_ifs with hok hfound
  · exact ⟨hold, hidx, le_rfl⟩
  · refine ⟨?_, hidx, by simp [append]⟩
    rw [append, pairwise_append]
    refine ⟨hold, pairwise_singleton _ _, fun other hother b hb => ?_⟩
    obtain rfl := mem_singleton.mp hb
    exact hlookup _ (by simpa using hfound) other hother
  · exact ⟨hold, hidx, le_rfl⟩

theorem apart_of_byProto (hnone : h.nodeByProto ids node.proto = none) :
    ∀ other ∈ h.nodes, Apart ids other node := by
  intro other hmem hvalid _ hkey
  have hno := findIdx?_eq_none_iff.mp hnone other hmem
  simp [hkey.2, hvalid] at hno

theorem apart_of_byPortProto (hnone : h.nodeByPortProto ids node.lport node.proto = none) :
    ∀ other ∈ h.nodes, Apart ids other node := by
  intro other hmem hvalid _ hkey
  have hno := findIdx?_eq_none_iff.mp hnone other hmem
  simp [hkey.1, hkey.2, hvalid] at hno

end Handlers

namespace Table

theorem call_zeroed (t : Table) (i : ℕ) (node : Node) (reply : Reply) :
    Zeroed t.h.nodes (t.call i node reply).1.h.nodes ∧
      (t.call i node reply).1.h.encapsIdx = t.h.encapsIdx ∧
      ∀ j ≠ i, (t.call i node reply).1.h.nodes[j]? = t.h.nodes[j]? :=
  t.h.tryHandleError_zeroed (reply.moved.foldl ConnIDs.bump t.ids) i node reply.err

theorem demuxNode_zeroed (t : Table) (found : Option ℕ) (reply : Reply) :
    Zeroed t.h.nodes (t.demuxNode found reply).1.h.nodes ∧
      (t.demuxNode found reply).1.h.encapsIdx = t.h.encapsIdx := by
  unfold demuxNode
  split
  · exact ⟨refl _, rfl⟩
  split
  · exact ⟨refl _, rfl⟩
  · obtain ⟨hz, hidx, -⟩ := t.call_zeroed _ _ reply
    exact ⟨hz, hidx⟩

theorem encapsulateNode_table (t : Table) (i : ℕ) (node : Node) (reply : Reply) :
    (t.encapsulateNode i node reply).1 =
      if node.isInvalid t.ids then t else (t.call i node reply).1 := by
  unfold encapsulateNode
  by_cases hinv : node.isInvalid t.ids
  · rw [if_pos hinv, if_pos hinv]
  · rw [if_neg hinv, if_neg hinv]
    by_cases hn : 0 < reply.n <;> simp [hn]

theorem encapsulateNode_zeroed (t : Table) (i : ℕ) (node : Node) (reply : Reply) :
    Zeroed t.h.nodes (t.encapsulateNode i node reply).1.h.nodes ∧
      (t.encapsulateNode i node reply).1.h.encapsIdx = t.h.encapsIdx ∧
      ∀ j ≠ i, (t.encapsulateNode i node reply).1.h.nodes[j]? = t.h.nodes[j]? := by
  rw [encapsulateNode_table]
  split_ifs
  · exact ⟨refl _, rfl, fun _ _ => rfl⟩
  · exact t.call_zeroed i node reply

/-- The connection IDs at a turn: those of the start, moved by the replies so far. -/
def Seen (t : Table) (replies : List Reply) (ids : ConnIDs) : Prop :=
  ∃ used, used <+: replies ∧ ids = (used.flatMap Reply.moved).foldl ConnIDs.bump t.ids

/-- A turn offers the buffer to its node exactly when the node is valid by then. -/
def Fair (t : Table) (replies : List Reply) (turn : ℕ × Bool) : Prop :=
  ∃ node ids, t.h.nodes[turn.1]? = some node ∧ t.Seen replies ids ∧
    turn.2 = !node.isInvalid ids

theorem encapsulateNode_ids (t : Table) (i : ℕ) (node : Node) (replies : List Reply) :
    ∃ used, used ++ (if (!node.isInvalid t.ids) then replies.tail else replies) = replies ∧
      (t.encapsulateNode i node (replies.headD {})).1.ids =
        (used.flatMap Reply.moved).foldl ConnIDs.bump t.ids := by
  rw [encapsulateNode_table]
  cases hinv : node.isInvalid t.ids with
  | true => exact ⟨[], by simp, rfl⟩
  | false =>
  cases replies with
  | nil => exact ⟨[], rfl, rfl⟩
  | cons reply rest => exact ⟨[reply], rfl, by simp [call]⟩

theorem incLim_add_mod (k : ℕ) : (incLim i len + k) % len = (i + (k + 1)) % len := by
  unfold incLim
  split_ifs with hlast
  · rw [show i + (k + 1) = len + k by omega, Nat.add_mod_left, Nat.zero_add]
  · rw [show i + 1 + k = i + (k + 1) by omega]

theorem incLim_lt (hi : i < len) : incLim i len < len := by
  unfold incLim
  split_ifs <;> omega

def around (i len n : ℕ) : List ℕ := (List.range n).map fun k => (i + k) % len

theorem around_succ (hi : i < len) (n : ℕ) :
    around i len (n + 1) = i :: around (incLim i len) len n := by
  unfold around
  rw [range_succ_eq_map]
  simp only [map_cons, map_map, Nat.add_zero, Nat.mod_eq_of_lt hi]
  congr 1
  apply map_congr_left
  intro k _
  exact (incLim_add_mod k).symm

theorem around_nodup (i : ℕ) {n : ℕ} (hn : n ≤ len) : (around i len n).Nodup := by
  apply Nodup.map_on _ nodup_range
  intro x hx y hy heq
  rw [mem_range] at hx hy
  have hmod : i + x ≡ i + y [MOD len] := heq
  exact (Nat.ModEq.add_left_cancel' i hmod).eq_of_lt_of_lt (by omega) (by omega)

theorem around_perm (hlen : 0 < len) : (around i len len).Perm (range len) := by
  have hsub : around i len len ⊆ range len := by
    intro j hj
    obtain ⟨k, -, rfl⟩ := mem_map.mp hj
    exact mem_range.mpr (Nat.mod_lt _ hlen)
  apply (subperm_of_subset (around_nodup i le_rfl) hsub).perm_of_length_le
  simp [around]

structure Sweeps (t : Table) (i rounds : ℕ) (replies : List Reply) (t' : Table) (turns : Turns)
    (report : Report) : Prop where
  zeroed : Zeroed t.h.nodes t'.h.nodes
  cursor : t'.h.encapsIdx = t.h.encapsIdx ∨ t'.h.encapsIdx < t.h.nodes.length
  few : turns.length ≤ rounds
  order : turns.map Prod.fst = around i t.h.nodes.length turns.length
  nothing : report.node = none → turns.length = rounds
  fair : ∀ turn ∈ turns, t.Fair replies turn

theorem encapsulateLoop_sweeps (rounds : ℕ) : ∀ (t : Table) (i : ℕ) (replies : List Reply),
    i < t.h.nodes.length → rounds ≤ t.h.nodes.length →
    ∃ t' turns report, encapsulateLoop rounds t i replies = .ok (t', turns, report) ∧
      Sweeps t i rounds replies t' turns report := by
  induction rounds with
  | zero =>
    intro t i replies _ _
    exact ⟨t, [], {}, rfl, refl _, .inl rfl, le_rfl, rfl, fun _ => rfl, by simp⟩
  | succ rounds ih =>
  intro t i replies hi hrounds
  obtain ⟨hz, hidx, hothers⟩ := t.encapsulateNode_zeroed i t.h.nodes[i] (replies.headD {})
  obtain ⟨used, hused, hids⟩ := t.encapsulateNode_ids i t.h.nodes[i] replies
  simp only [encapsulateLoop, getElem?_eq_getElem hi]
  obtain ⟨t1, n, err, hnode⟩ : ∃ t1 n err,
      t.encapsulateNode i t.h.nodes[i] (replies.headD {}) = (t1, n, err) := ⟨_, _, _, rfl⟩
  rw [hnode] at hz hidx hothers hids ⊢
  have hmine : t.Fair replies (i, !t.h.nodes[i].isInvalid t.ids) :=
    ⟨t.h.nodes[i], t.ids, getElem?_eq_getElem hi, ⟨[], nil_prefix, rfl⟩, rfl⟩
  have hnext := incLim_lt hi
  by_cases hsent : 0 < n ∨ err ≠ none
  · rw [if_pos hsent]
    refine ⟨_, _, _, rfl, hz, .inr ?_, by simp, ?_, by simp, ?_⟩
    · simp only [hz.length]
      exact hnext
    · simp [around, Nat.mod_eq_of_lt hi]
    intro turn hturn
    rw [mem_singleton.mp hturn]
    exact hmine
  rw [if_neg hsent]
  obtain ⟨t2, turns, report, hloop, hsweep⟩ := ih t1 (incLim i t1.h.nodes.length)
    (if (!t.h.nodes[i].isInvalid t.ids) then replies.tail else replies)
    (by rw [hz.length]; exact hnext) (by rw [hz.length]; omega)
  have hfew := hsweep.few
  have horder : ((i, !t.h.nodes[i].isInvalid t.ids) :: turns).map Prod.fst =
      around i t.h.nodes.length (turns.length + 1) := by
    rw [map_cons, hsweep.order, hz.length, around_succ hi]
  rw [hloop]
  refine ⟨t2, _, report, rfl, hz.trans hsweep.zeroed, ?_, by simpa using hfew, horder, ?_, ?_⟩
  · rcases hsweep.cursor with hc | hc
    · exact .inl (hc.trans hidx)
    · exact .inr (by rw [← hz.length]; exact hc)
  · intro hnone
    simpa using hsweep.nothing hnone
  intro turn hturn
  rcases mem_cons.mp hturn with rfl | hlater
  · exact hmine
  -- a later turn is another node's, which this turn left alone
  obtain ⟨node, ids, hget, ⟨more, hmore, hseen⟩, hfair⟩ := hsweep.fair turn hlater
  have hne : turn.1 ≠ i := by
    have hnodup : ((i, !t.h.nodes[i].isInvalid t.ids) :: turns).map Prod.fst |>.Nodup := by
      rw [horder]
      exact around_nodup i (by omega)
    rw [map_cons, nodup_cons] at hnodup
    intro heq
    have hmem : turn.1 ∈ turns.map Prod.fst := mem_map_of_mem hlater
    rw [heq] at hmem
    exact hnodup.1 hmem
  refine ⟨node, ids, (hothers _ hne).symm.trans hget, ⟨used ++ more, ?_, ?_⟩, hfair⟩
  · rw [← hused]
    exact (prefix_append_right_inj used).mpr hmore
  · rw [hseen, hids, flatMap_append, foldl_append]

theorem encapsulateNode_wrote {reply : Reply} {n : ℤ} {err : Option NodeErr}
    (hnil : 0 < reply.n → reply.err = none) (h : t.encapsulateNode i node reply = (t', n, err))
    (hn : 0 < n ∨ err ≠ none) : node.isInvalid t.ids = false ∧ t'.h = t.h := by
  unfold encapsulateNode at h
  by_cases hinv : node.isInvalid t.ids
  · rw [if_pos hinv] at h
    cases h
    simp at hn
  rw [if_neg hinv] at h
  by_cases hpos : 0 < reply.n
  · simp only [call, Handlers.tryHandleError, hnil hpos, Option.isSome_none, Bool.false_and,
      Bool.false_eq_true, if_false, if_pos hpos] at h
    cases h
    exact ⟨Bool.eq_false_iff.2 hinv, rfl⟩
  simp only [if_neg hpos] at h
  cases h
  simp at hn

/-- The node that a sweep reports, when no node that writes returns an error. -/
theorem encapsulateLoop_wrote (rounds : ℕ) : ∀ {t t' : Table} {i j : ℕ} {replies : List Reply}
    {turns : Turns} {n : ℤ} {err : Option NodeErr},
    (∀ reply ∈ replies, 0 < reply.n → reply.err = none) →
    encapsulateLoop rounds t i replies = .ok (t', turns, ⟨some j, n, err⟩) →
    ∃ node, node ≠ {} ∧ t.h.nodes[j]? = some node ∧ t'.h.nodes[j]? = some node := by
  induction rounds with
  | zero =>
    intro t t' i j replies turns n err _ h
    cases h
  | succ rounds ih =>
  intro t t' i j replies turns n err hnil h
  have hhead : 0 < (replies.headD {}).n → (replies.headD {}).err = none := by
    cases replies with
    | nil => exact fun _ => rfl
    | cons reply rest => exact hnil reply mem_cons_self
  cases hnode : t.h.nodes[i]? with
  | none => simp [encapsulateLoop, hnode] at h
  | some node =>
  obtain ⟨t1, n1, err1, hcall⟩ : ∃ t1 n1 err1,
      t.encapsulateNode i node (replies.headD {}) = (t1, n1, err1) := ⟨_, _, _, rfl⟩
  simp only [encapsulateLoop, hnode, hcall] at h
  by_cases hsent : 0 < n1 ∨ err1 ≠ none
  · rw [if_pos hsent] at h
    obtain ⟨hvalid, hsame⟩ := encapsulateNode_wrote hhead hcall hsent
    cases h
    refine ⟨node, ?_, hnode, ?_⟩
    · rintro rfl
      cases hvalid
    · simp only [hsame]
      exact hnode
  rw [if_neg hsent] at h
  have hrest : ∀ reply ∈ (if (!node.isInvalid t.ids) then replies.tail else replies),
      0 < reply.n → reply.err = none := by
    intro reply hmem
    apply hnil
    split_ifs at hmem
    · exact mem_of_mem_tail hmem
    · exact hmem
  cases hloop : encapsulateLoop rounds t1 (incLim i t1.h.nodes.length)
      (if (!node.isInvalid t.ids) then replies.tail else replies) with
  | error fault =>
    rw [hloop] at h
    cases h
  | ok r =>
    obtain ⟨t2, turns2, report⟩ := r
    rw [hloop] at h
    cases h
    obtain ⟨sender, hne, hbefore, hafter⟩ := ih hrest hloop
    have hz := (t.encapsulateNode_zeroed i node (replies.headD {})).1
    rw [hcall] at hz
    refine ⟨sender, hne, ?_, hafter⟩
    -- a node destroyed before its turn could not have been called
    rcases hz.get j with heq | hzero
    · exact heq.symm.trans hbefore
    · rw [hzero] at hbefore
      exact absurd (Option.some.inj hbefore).symm hne

end Table

/-- No node comes back to life, a table is reset with its cursor at the front, and a full
table is registered at with the cursor there or below the number of valid nodes. -/
def Regular (t : Table) (op : Op) : Prop :=
  (∀ t', step t op = .ok t' → Kept t.ids t'.ids t.h.nodes) ∧
  match op with
  | .reset _ _ => t.h.encapsIdx = 0
  | .registerByProto _ | .registerByPortProto _ => t.h.full = true →
      t.h.encapsIdx = 0 ∨ t.h.encapsIdx < t.h.nodes.countP fun node => !node.isInvalid t.ids
  | _ => True

instance (t : Table) (op : Op) : Decidable (Regular t op) := by
  unfold Regular
  cases op <;> infer_instance

structure Sound (t : Table) : Prop where
  apart : t.h.nodes.Pairwise (Apart t.ids)
  cursor : t.h.encapsIdx = 0 ∨ t.h.encapsIdx < t.h.nodes.length

theorem Sound.cursor_lt (hs : Sound t) (hne : t.h.nodes ≠ []) :
    t.h.encapsIdx < t.h.nodes.length := by
  have hpos := length_pos_of_ne_nil hne
  rcases hs.cursor with h | h <;> omega

theorem encapsulateAny_sweeps (hs : Sound t) (replies : List Reply) :
    ∃ t' turns report, t.encapsulateAny replies = .ok (t', turns, report) ∧
      t.Sweeps t.h.encapsIdx t.h.nodes.length replies t' turns report := by
  by_cases hnil : t.h.nodes = []
  · refine ⟨t, [], {}, ?_, refl _, .inl rfl, by simp, rfl, by simp [hnil], by simp⟩
    rw [Table.encapsulateAny, hnil]
    rfl
  · exact Table.encapsulateLoop_sweeps _ t _ replies (hs.cursor_lt hnil) le_rfl

theorem sound_zeroed (hs : Sound t) (hz : Zeroed t.h.nodes t'.h.nodes)
    (hkept : Kept t.ids t'.ids t.h.nodes)
    (hidx : t'.h.encapsIdx = t.h.encapsIdx ∨ t'.h.encapsIdx < t.h.nodes.length) : Sound t' := by
  refine ⟨hz.apart hkept hs.apart, ?_⟩
  rw [hz.length]
  rcases hidx with h | h
  · rw [h]
    exact hs.cursor
  · exact .inr h

theorem sound_registered {lookup : Handlers → Option ℕ} (hs : Sound t)
    (hlookup : ∀ h', lookup h' = none → ∀ other ∈ h'.nodes, Apart t.ids other node)
    (hcursor : t.h.full → t.h.encapsIdx = 0 ∨
      t.h.encapsIdx < t.h.nodes.countP fun node => !node.isInvalid t.ids) :
    Sound { t with h := (t.h.register t.ids lookup node).1 } := by
  obtain ⟨happart, hidx, hlen⟩ := Handlers.register_apart hlookup hs.apart
  refine ⟨happart, ?_⟩
  simp only [hidx]
  cases hfull : t.h.full with
  | true =>
    rw [hfull, if_pos rfl] at hlen
    exact (hcursor hfull).imp_right fun h => h.trans_le hlen
  | false =>
  rw [hfull, if_neg (by simp)] at hlen
  exact hs.cursor.imp_right fun h => h.trans_le hlen

theorem sound_step {op : Op} (hs : Sound t) (hreg : Regular t op) (hstep : step t op = .ok t') :
    Sound t' := by
  obtain ⟨hkept, hop⟩ := hreg
  have hkept := hkept t' hstep
  cases op with
  | reset maxNodes slack =>
    cases hstep
    exact ⟨Pairwise.nil, .inl hop⟩
  | registerByProto node =>
    cases hstep
    exact sound_registered hs (fun _ => Handlers.apart_of_byProto) hop
  | registerByPortProto node =>
    cases hstep
    exact sound_registered hs (fun _ => Handlers.apart_of_byPortProto) hop
  | demuxByProto proto reply =>
    cases hstep
    obtain ⟨hz, hidx⟩ := t.demuxNode_zeroed (t.h.nodeByProto t.ids proto) reply
    exact sound_zeroed hs hz hkept (.inl hidx)
  | demuxByPort port reply =>
    cases hstep
    obtain ⟨hz, hidx⟩ := t.demuxNode_zeroed (t.h.nodeByPort t.ids port) reply
    exact sound_zeroed hs hz hkept (.inl hidx)
  | encapsulateAny replies =>
    obtain ⟨t1, turns, report, hany, hsweep⟩ := encapsulateAny_sweeps hs replies
    rw [step, hany] at hstep
    cases hstep
    exact sound_zeroed hs hsweep.zeroed hkept hsweep.cursor
  | invalidate p =>
    cases hstep
    exact sound_zeroed hs (refl _) hkept (.inl rfl)

/-- In a regular run the valid nodes differ in port or protocol, the cursor points into
the table, compaction keeps the valid nodes, and a sweep returns: each node has at most
one turn, one if nothing was sent, and is offered the buffer unless invalid. -/
theorem node_table_sound (ops : List Op) (t : Table) (hops : Guarded step Regular {} ops)
    (hrun : exec step {} ops = .ok t) : t.h.nodes.Pairwise (Apart t.ids) ∧
    (t.h.nodes ≠ [] → t.h.encapsIdx < t.h.nodes.length) ∧
    (t.h.compact t.ids).nodes = t.h.nodes.filter (fun node => !node.isInvalid t.ids) ∧
    ∀ replies, ∃ t' turns report, t.encapsulateAny replies = .ok (t', turns, report) ∧
      (turns.map Prod.fst).Nodup ∧
      (report.node = none → (turns.map Prod.fst).Perm (List.range t.h.nodes.length)) ∧
      ∀ turn ∈ turns, t.Fair replies turn := by
  have hs : Sound t :=
    exec_invariant (fun _ _ _ => sound_step) ops {} t ⟨List.Pairwise.nil, .inl rfl⟩ hops hrun
  refine ⟨hs.apart, hs.cursor_lt, t.h.compact_nodes t.ids, fun replies => ?_⟩
  obtain ⟨t', turns, report, hany, hsweep⟩ := encapsulateAny_sweeps hs replies
  refine ⟨t', turns, report, hany, ?_, fun hnone => ?_, hsweep.fair⟩
  · rw [hsweep.order]
    exact Table.around_nodup _ hsweep.few
  rw [hsweep.order, hsweep.nothing hnone]
  rcases Nat.eq_zero_or_pos t.h.nodes.length with hz | hpos
  · rw [hz]
    exact List.Perm.refl _
  · exact Table.around_perm hpos

def portNode (p : ℕ) (port : BitVec 16) : Node :=
  { connID := some p, callbacks := some p, proto := 6, lport := port }

def sharedOps : List Op :=
  [.reset 2 0, .registerByPortProto (portNode 0 80), .registerByPortProto (portNode 1 81),
    .encapsulateAny [{ n := 40 }]]

theorem node_table_sound_shared : ∃ t, exec step {} sharedOps = .ok t ∧ t.h.nodes.length = 2 ∧
      t.h.encapsIdx < t.h.nodes.length ∧ ∀ replies, ∃ t' turns report,
        t.encapsulateAny replies = .ok (t', turns, report) ∧ (turns.map Prod.fst).Nodup := by
  obtain ⟨t, hrun, hlen⟩ : ∃ t, exec step {} sharedOps = .ok t ∧ t.h.nodes.length = 2 :=
    exists_exec (by decide +kernel)
  obtain ⟨-, hcursor, -, hany⟩ := node_table_sound sharedOps t (by decide +kernel) hrun
  refine ⟨t, hrun, hlen, hcursor (fun hnil => by simp [hnil] at hlen), fun replies => ?_⟩
  obtain ⟨t', turns, report, heq, hnodup, -⟩ := hany replies
  exact ⟨t', turns, report, heq, hnodup⟩

/-- Two connections end and a third registers: the cursor points behind the only node,
and the next sweep is out of range. -/
theorem cursor_outlives_compaction : ∃ t, exec step {} (sharedOps ++ [.invalidate 0, .invalidate 1,
        .registerByPortProto (portNode 2 82)]) = .ok t ∧
      t.h.nodes = [portNode 2 82] ∧ t.h.encapsIdx = 1 ∧
      (t.encapsulateAny []).toOption.isNone = true :=
  exists_exec (by decide +kernel)

end Lneto.StackNodes
