import Lneto.DnsDecode

/-!
Encoding a DNS message. The buffer is grown once, by the length of the message;
names and data are appended, and the fixed fields written behind the end of the
slice. The length is a 16-bit number, right only for messages shorter than 65536
bytes.
-/
namespace Lneto.DnsEncode

open DnsNames DnsDecode List

variable {α : Type} {q : Question} {r : Resource}

structure Message where
  questions : List Question := []
  answers : List Resource := []
  authorities : List Resource := []
  additionals : List Resource := []
deriving DecidableEq, Repr

/-- What ends an encoding early: a panic or the error of an empty name. -/
inductive Stop where
  | sliceBounds
  | nameOverflow
  | invalidName
deriving DecidableEq, Repr

/-- A byte slice of Go: append reuses the capacity behind its bytes. -/
structure Slice where
  bytes : List UInt8
  cap : ℕ
  fits : bytes.length ≤ cap

/-- The capacity of a fresh slice for at least n bytes. -/
structure Allocator where
  capacity : ℕ → ℕ
  enough : ∀ n, n ≤ capacity n

namespace Slice

def append (alloc : Allocator) (s : Slice) (b : List UInt8) : Slice :=
  if h : s.bytes.length + b.length ≤ s.cap then ⟨s.bytes ++ b, s.cap, by simpa using h⟩
  else ⟨s.bytes ++ b, alloc.capacity (s.bytes.length + b.length), by simpa using alloc.enough _⟩

def grow (alloc : Allocator) (s : Slice) (n : ℕ) : Slice :=
  if s.bytes.length + n ≤ s.cap then s
  else ⟨s.bytes, alloc.capacity (s.bytes.length + n),
    (Nat.le_add_right _ _).trans (alloc.enough _)⟩

/-- A write behind the end of the slice, which must lie within its capacity. -/
def extend (s : Slice) (b : List UInt8) : Except Stop Slice :=
  if h : s.bytes.length + b.length ≤ s.cap then .ok ⟨s.bytes ++ b, s.cap, by simpa using h⟩
  else .error .sliceBounds

end Slice

def put16 (v : ℕ) : List UInt8 := [UInt8.ofNat (v / 256), UInt8.ofNat v]

def put32 (v : ℕ) : List UInt8 := put16 (v / 65536) ++ put16 v

def append16 (s : Slice) (v : ℕ) : Except Stop Slice := s.extend (put16 v)

def append32 (s : Slice) (v : ℕ) : Except Stop Slice := s.extend (put32 v)

def nameAppendTo (alloc : Allocator) (name : List UInt8) (s : Slice) : Except Stop Slice :=
  if name = [] then .error .invalidName else .ok (s.append alloc name)

def questionAppendTo (alloc : Allocator) (q : Question) (s : Slice) : Except Stop Slice := do
  let s ← nameAppendTo alloc q.name s
  let s ← append16 s q.type
  append16 s q.class_

def headerAppendTo (alloc : Allocator) (r : Resource) (s : Slice) : Except Stop Slice := do
  let s ← nameAppendTo alloc r.name s
  let s ← append16 s r.type
  let s ← append16 s r.class_
  let s ← append32 s r.ttl
  append16 s r.length

def resourceAppendTo (alloc : Allocator) (r : Resource) (s : Slice) : Except Stop Slice := do
  let s ← headerAppendTo alloc r s
  return s.append alloc r.data

def nameLen (name : List UInt8) : Except Stop ℕ :=
  if 65535 < name.length then .error .nameOverflow else .ok name.length

def questionLen (q : Question) : Except Stop ℕ := do
  let n ← nameLen q.name
  return u16 (n + 4)

def resourceLen (r : Resource) : Except Stop ℕ := do
  let n ← nameLen r.name
  return u16 (n + 10 + u16 r.data.length)

def sumLen {α : Type} (len : α → Except Stop ℕ) (l : ℕ) : List α → Except Stop ℕ
  | [] => .ok l
  | x :: xs => do
    let n ← len x
    sumLen len (u16 (l + n)) xs

namespace Message

def lenResources (m : Message) : Except Stop ℕ := do
  let l ← sumLen questionLen 0 m.questions
  let l ← sumLen resourceLen l m.answers
  let l ← sumLen resourceLen l m.authorities
  sumLen resourceLen l m.additionals

def len (m : Message) : Except Stop ℕ := do
  let l ← m.lenResources
  return u16 (sizeHeader + l)

def header (m : Message) (txid flags : ℕ) : List UInt8 :=
  put16 txid ++ put16 flags ++ put16 (u16 m.questions.length) ++ put16 (u16 m.answers.length) ++
    put16 (u16 m.authorities.length) ++ put16 (u16 m.additionals.length)

end Message

def appendAll {α : Type} (appendTo : α → Slice → Except Stop Slice) :
    List α → Slice → Except Stop Slice
  | [], s => .ok s
  | x :: xs, s => do
    let s ← appendTo x s
    appendAll appendTo xs s

def Message.appendTo (alloc : Allocator) (m : Message) (buf : Slice) (txid flags : ℕ) :
    Except Stop Slice := do
  let l ← m.len
  let s ← (buf.grow alloc l).extend (m.header txid flags)
  let s ← appendAll (questionAppendTo alloc) m.questions s
  let s ← appendAll (resourceAppendTo alloc) m.answers s
  let s ← appendAll (resourceAppendTo alloc) m.authorities s
  appendAll (resourceAppendTo alloc) m.additionals s

def questionWire (q : Question) : List UInt8 := q.name ++ (put16 q.type ++ put16 q.class_)

def fixedWire (r : Resource) : List UInt8 :=
  put16 r.type ++ (put16 r.class_ ++ (put32 r.ttl ++ put16 r.length))

def resourceWire (r : Resource) : List UInt8 := r.name ++ (fixedWire r ++ r.data)

namespace Message

def resources (m : Message) : List Resource := m.answers ++ m.authorities ++ m.additionals

def wire (m : Message) (txid flags : ℕ) : List UInt8 :=
  m.header txid flags ++ (m.questions.flatMap questionWire ++ m.resources.flatMap resourceWire)

end Message

theorem length_put16 (v : ℕ) : (put16 v).length = 2 := rfl

theorem length_put32 (v : ℕ) : (put32 v).length = 4 := rfl

theorem length_header (m : Message) (txid flags : ℕ) : (m.header txid flags).length = 12 := rfl

theorem length_questionWire (q : Question) : (questionWire q).length = q.name.length + 4 := by
  simp [questionWire, length_put16]

theorem length_resourceWire (r : Resource) :
    (resourceWire r).length = r.name.length + 10 + r.data.length := by
  simp [resourceWire, fixedWire, put16, put32]
  omega

/-- A step of the encoding appends certain bytes, and gets there when they fit. -/
structure Appends (f : Slice → Except Stop Slice) (b : List UInt8) : Prop where
  bytes : ∀ s s', f s = .ok s' → s'.bytes = s.bytes ++ b
  fits : ∀ s, s.bytes.length + b.length ≤ s.cap → ∃ s', f s = .ok s' ∧ s'.cap = s.cap

section Appending
variable {f g : Slice → Except Stop Slice} {b c : List UInt8}

theorem bind_ok {β : Type} {x : Except Stop α} {k : α → Except Stop β} {y : β}
    (h : (x >>= k) = .ok y) : ∃ a, x = .ok a ∧ k a = .ok y := by
  cases x with
  | error e => cases h
  | ok a => exact ⟨a, rfl, h⟩

theorem Appends.bind (hf : Appends f b) (hg : Appends g c) :
    Appends (fun s => f s >>= g) (b ++ c) := by
  refine ⟨fun s s' h => ?_, fun s hs => ?_⟩
  · obtain ⟨mid, h1, h2⟩ := bind_ok h
    rw [hg.bytes _ _ h2, hf.bytes _ _ h1, append_assoc]
  rw [length_append] at hs
  obtain ⟨mid, h1, hcap⟩ := hf.fits s (by omega)
  have hlen := congrArg List.length (hf.bytes _ _ h1)
  rw [length_append] at hlen
  obtain ⟨s', h2, hcap'⟩ := hg.fits mid (by omega)
  refine ⟨s', ?_, hcap'.trans hcap⟩
  rw [h1]
  exact h2

theorem appends_extend (b : List UInt8) : Appends (fun s => s.extend b) b := by
  refine ⟨fun s s' h => ?_, fun s hs => ?_⟩
  · unfold Slice.extend at h
    split_ifs at h
    cases h
    rfl
  · rw [Slice.extend, dif_pos hs]
    exact ⟨_, rfl, rfl⟩

theorem appends_append (alloc : Allocator) (b : List UInt8) :
    Appends (fun s => .ok (s.append alloc b)) b := by
  refine ⟨fun s s' h => ?_, fun s hs => ⟨_, rfl, ?_⟩⟩
  · cases h
    unfold Slice.append
    split_ifs <;> rfl
  · rw [Slice.append, dif_pos hs]

theorem appends_name (alloc : Allocator) {name : List UInt8} (hne : name ≠ []) :
    Appends (nameAppendTo alloc name) name := by
  have heq : nameAppendTo alloc name = fun s => .ok (s.append alloc name) := by
    funext s
    exact if_neg hne
  rw [heq]
  exact appends_append alloc name

theorem appends_question (alloc : Allocator) (hne : q.name ≠ []) :
    Appends (questionAppendTo alloc q) (questionWire q) :=
  (appends_name alloc hne).bind ((appends_extend _).bind (appends_extend _))

theorem appends_resource (alloc : Allocator) (hne : r.name ≠ []) :
    Appends (resourceAppendTo alloc r) (resourceWire r) := by
  have hhead : Appends (headerAppendTo alloc r) (r.name ++ fixedWire r) :=
    (appends_name alloc hne).bind ((appends_extend _).bind ((appends_extend _).bind
      ((appends_extend _).bind (appends_extend _))))
  have hall := hhead.bind (appends_append alloc r.data)
  rwa [append_assoc] at hall

theorem appends_all {appendTo : α → Slice → Except Stop Slice} {wire : α → List UInt8} {xs : List α}
    (h : ∀ x ∈ xs, Appends (appendTo x) (wire x)) :
    Appends (appendAll appendTo xs) (xs.flatMap wire) := by
  induction xs with
  | nil =>
    refine ⟨fun s s' hs => ?_, fun s _ => ⟨s, rfl, rfl⟩⟩
    cases hs
    simp
  | cons x xs ih =>
    exact (h x mem_cons_self).bind (ih fun y hy => h y (mem_cons_of_mem x hy))

end Appending

section Lengths

theorem u16_add (a b : ℕ) : u16 (u16 a + b) = u16 (a + b) := by
  unfold u16
  omega

theorem questionLen_wire (h : q.name.length ≤ 65535) :
    questionLen q = .ok (u16 (questionWire q).length) := by
  rw [length_questionWire, questionLen, nameLen, if_neg (by omega)]
  rfl

theorem resourceLen_wire (h : r.name.length ≤ 65535) :
    resourceLen r = .ok (u16 (resourceWire r).length) := by
  have hsum : u16 (r.name.length + 10 + u16 r.data.length) =
      u16 (r.name.length + 10 + r.data.length) := by
    unfold u16
    omega
  rw [length_resourceWire, ← hsum, resourceLen, nameLen, if_neg (by omega)]
  rfl

theorem sumLen_wire {len : α → Except Stop ℕ} {wire : α → List UInt8} {xs : List α}
    (h : ∀ x ∈ xs, len x = .ok (u16 (wire x).length)) (l : ℕ) :
    sumLen len (u16 l) xs = .ok (u16 (l + (xs.flatMap wire).length)) := by
  induction xs generalizing l with
  | nil => rfl
  | cons x xs ih =>
  have hstep : u16 (u16 l + u16 (wire x).length) = u16 (l + (wire x).length) := by
    unfold u16
    omega
  rw [sumLen, h x mem_cons_self, flatMap_cons, length_append, ← Nat.add_assoc]
  change sumLen len (u16 (u16 l + u16 (wire x).length)) xs = _
  rw [hstep]
  exact ih (fun y hy => h y (mem_cons_of_mem x hy)) _

end Lengths

def Message.names (m : Message) : List (List UInt8) :=
  m.questions.map (·.name) ++ m.resources.map (·.name)

section Messages
variable {m : Message} {txid flags : ℕ}

theorem mem_names_question (h : q ∈ m.questions) : q.name ∈ m.names :=
  mem_append_left _ (mem_map_of_mem h)

theorem mem_names_resource (h : r ∈ m.resources) : r.name ∈ m.names :=
  mem_append_right _ (mem_map_of_mem h)

theorem len_wire (h : ∀ name ∈ m.names, name.length ≤ 65535) :
    m.len = .ok (u16 (m.wire txid flags).length) := by
  have hq : ∀ q ∈ m.questions, questionLen q = .ok (u16 (questionWire q).length) :=
    fun q hmem => questionLen_wire (h _ (mem_names_question hmem))
  have hr : ∀ r ∈ m.resources, resourceLen r = .ok (u16 (resourceWire r).length) :=
    fun r hmem => resourceLen_wire (h _ (mem_names_resource hmem))
  have hlen : m.lenResources = .ok (u16 ((m.questions.flatMap questionWire).length +
      (m.resources.flatMap resourceWire).length)) := by
    have hsum : ∀ (rs : List Resource), (∀ r ∈ rs, r ∈ m.resources) → ∀ l,
        sumLen resourceLen (u16 l) rs = .ok (u16 (l + (rs.flatMap resourceWire).length)) :=
      fun rs hsub => sumLen_wire fun r hmem => hr r (hsub r hmem)
    rw [Message.lenResources, show (0 : ℕ) = u16 0 from rfl, sumLen_wire hq 0]
    change (sumLen resourceLen (u16 _) m.answers >>= _) = _
    rw [hsum _ (by simp +contextual [Message.resources])]
    change (sumLen resourceLen (u16 _) m.authorities >>= _) = _
    rw [hsum _ (by simp +contextual [Message.resources])]
    change sumLen resourceLen (u16 _) m.additionals = _
    rw [hsum _ (by simp +contextual [Message.resources])]
    simp [Message.resources, Nat.add_assoc]
  rw [Message.len, hlen]
  change Except.ok (u16 (sizeHeader + u16 _)) = _
  rw [Nat.add_comm, u16_add, Message.wire, length_append, length_append, length_header,
    sizeHeader, Nat.add_comm]

theorem appends_message (alloc : Allocator) (h : ∀ name ∈ m.names, name ≠ []) :
    Appends (fun s => s.extend (m.header txid flags) >>= fun s =>
      appendAll (questionAppendTo alloc) m.questions s >>= fun s =>
      appendAll (resourceAppendTo alloc) m.answers s >>= fun s =>
      appendAll (resourceAppendTo alloc) m.authorities s >>= fun s =>
      appendAll (resourceAppendTo alloc) m.additionals s) (m.wire txid flags) := by
  have hq := appends_all fun q hmem => appends_question alloc (h _ (mem_names_question hmem))
  have hr : ∀ rs : List Resource, (∀ r ∈ rs, r ∈ m.resources) →
      Appends (appendAll (resourceAppendTo alloc) rs) (rs.flatMap resourceWire) :=
    fun rs hsub => appends_all fun r hmem =>
      appends_resource alloc (h _ (mem_names_resource (hsub r hmem)))
  have hall := (appends_extend (m.header txid flags)).bind (hq.bind
    ((hr m.answers (by simp +contextual [Message.resources])).bind
      ((hr m.authorities (by simp +contextual [Message.resources])).bind
        (hr m.additionals (by simp +contextual [Message.resources])))))
  rw [Message.wire, Message.resources, append_assoc m.answers, flatMap_append, flatMap_append]
  exact hall

theorem appendTo_bytes {alloc : Allocator} {buf out : Slice} (hne : ∀ name ∈ m.names, name ≠ [])
    (h : m.appendTo alloc buf txid flags = .ok out) :
    out.bytes = buf.bytes ++ m.wire txid flags := by
  obtain ⟨l, -, h⟩ := bind_ok h
  have hgrow : (buf.grow alloc l).bytes = buf.bytes := by
    unfold Slice.grow
    split_ifs <;> rfl
  rw [← hgrow]
  exact (appends_message alloc hne).bytes _ _ h

theorem appendTo_fits (alloc : Allocator) (buf : Slice) (hne : ∀ name ∈ m.names, name ≠ [])
    (hlen : ∀ name ∈ m.names, name.length ≤ 65535) (hsize : (m.wire txid flags).length ≤ 65535) :
    ∃ out, m.appendTo alloc buf txid flags = .ok out := by
  have hl : m.len = .ok (u16 (m.wire txid flags).length) := len_wire hlen
  rw [u16_of_lt (by omega)] at hl
  have hroom : (buf.grow alloc (m.wire txid flags).length).bytes.length +
      (m.wire txid flags).length ≤ (buf.grow alloc (m.wire txid flags).length).cap := by
    unfold Slice.grow
    split_ifs with hcap
    · exact hcap
    · exact alloc.enough _
  obtain ⟨out, hout, -⟩ := (appends_message alloc hne).fits _ hroom
  refine ⟨out, ?_⟩
  rw [Message.appendTo, hl]
  exact hout

end Messages

end Lneto.DnsEncode
