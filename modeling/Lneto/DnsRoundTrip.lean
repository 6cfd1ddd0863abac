import Lneto.DnsLimits
import Lneto.DnsEncode
import Mathlib.Data.List.GetD

/-!
Decoding what was encoded. A name on the wire is read back wherever it stands in
a message of 16-bit size. The one record whose data depends on the rest is a
CNAME whose data is not a name: it survives exactly when its data does not
decode as a name where it stands.
-/
namespace Lneto.DnsRoundTrip

open DnsNames DnsDecode DnsLimits DnsEncode List Option Outcome
open UInt8 hiding not_not

variable {msg : List UInt8} {qs : List Question}

/-- Labels of up to 63 bytes without dots, each behind its length. -/
inductive Labels : List UInt8 → Prop where
  | nil : Labels []
  | cons {label rest : List UInt8} (hpos : label ≠ []) (hlen : label.length < 64)
      (hdot : 46 ∉ label) (hrest : Labels rest) :
      Labels (UInt8.ofNat label.length :: (label ++ rest))

def WireName (name : List UInt8) : Prop := ∃ labels, Labels labels ∧ name = labels ++ [0]

def At (msg : List UInt8) (off : ℕ) (bytes : List UInt8) : Prop :=
  ∃ before after, msg = before ++ (bytes ++ after) ∧ before.length = off

section Places
variable {msg a b : List UInt8} {off : ℕ}

theorem At.left (h : At msg off (a ++ b)) : At msg off a := by
  obtain ⟨before, after, rfl, hoff⟩ := h
  exact ⟨before, b ++ after, by simp, hoff⟩

theorem At.right (h : At msg off (a ++ b)) : At msg (off + a.length) b := by
  obtain ⟨before, after, rfl, rfl⟩ := h
  exact ⟨before ++ a, after, by simp, by simp⟩

theorem At.le (h : At msg off a) : off + a.length ≤ msg.length := by
  obtain ⟨before, after, rfl, rfl⟩ := h
  simp only [length_append]
  omega

theorem At.drop (h : At msg off a) : ∃ after, msg.drop off = a ++ after := by
  obtain ⟨before, after, rfl, rfl⟩ := h
  exact ⟨after, drop_left⟩

theorem At.getD (h : At msg off a) {i : ℕ} (hi : i < a.length) :
    msg.getD (off + i) 0 = a.getD i 0 := by
  obtain ⟨before, after, rfl, rfl⟩ := h
  rw [getD_append_right _ _ _ _ (by omega), Nat.add_sub_cancel_left, getD_append _ _ _ _ hi]

theorem At.be16 {v : ℕ} (h : At msg off (put16 v)) : DnsDecode.be16 msg off = some (u16 v) := by
  have hle := h.le
  have h0 := h.getD (i := 0) (by simp [put16])
  have h1 := h.getD (i := 1) (by simp [put16])
  rw [length_put16] at hle
  rw [DnsDecode.be16, if_pos hle]
  rw [Nat.add_zero] at h0
  rw [h0, h1]
  simp only [put16, getD_cons_zero, getD_cons_succ, toNat_ofNat', u16, some.injEq]
  omega

theorem At.be32 {v : ℕ} (h : At msg off (put32 v)) :
    DnsDecode.be32 msg off = some (v % 4294967296) := by
  have hle := h.le
  have h0 := h.getD (i := 0) (by simp [put32, put16])
  have h1 := h.getD (i := 1) (by simp [put32, put16])
  have h2 := h.getD (i := 2) (by simp [put32, put16])
  have h3 := h.getD (i := 3) (by simp [put32, put16])
  rw [length_put32] at hle
  rw [DnsDecode.be32, if_pos hle]
  rw [Nat.add_zero] at h0
  rw [h0, h1, h2, h3]
  simp only [put32, put16, cons_append, nil_append, getD_cons_zero,
    getD_cons_succ, toNat_ofNat', some.injEq]
  omega

end Places

theorem small_label : ∀ n < 64, n &&& 192 = 0 := by decide

theorem nextLabel_label {label rest : List UInt8} (hpos : label ≠ []) (hlen : label.length < 64)
    (hdot : 46 ∉ label) :
    nextLabel (ofNat label.length :: (label ++ rest)) = .ok (1, 1 + label.length, false) := by
  have hn : (ofNat label.length).toNat = label.length := by
    rw [toNat_ofNat']
    omega
  have hzero : label.length ≠ 0 := by simpa using hpos
  simp only [nextLabel, hn, small_label _ hlen, if_true, if_neg hzero]
  rw [if_neg (by simp), if_neg (by simpa [take_left] using hdot)]

theorem visitLoop_labels {labels : List UInt8} (hmsg : msg.length ≤ 65535) (h : Labels labels) :
    ∀ (rounds off newOff : ℕ) (data : List UInt8),
    At msg off (labels ++ [0]) → labels.length < rounds →
    visitLoop msg true rounds off 0 newOff data =
      .done (off + labels.length + 1) (data ++ labels) := by
  induction h with
  | nil =>
    intro rounds off newOff data hat hrounds
    have hle := hat.le
    obtain ⟨after, hdrop⟩ := hat.drop
    simp only [nil_append, length_singleton] at hle hdrop
    obtain ⟨rounds, rfl⟩ : ∃ n, rounds = n + 1 := ⟨rounds - 1, by simp at hrounds; omega⟩
    have hnext : nextLabel (0 :: after) = .ok (1, 1, false) := rfl
    rw [visitLoop, if_neg (by omega), hdrop, cons_append, nil_append, hnext]
    simp [u16_of_lt (show off + 1 < 65536 by omega)]
  | @cons label rest hpos hlen hdot _ ih =>
  intro rounds off newOff data hat hrounds
  have hle := hat.le
  obtain ⟨after, hdrop⟩ := hat.drop
  simp only [length_append, length_cons, length_nil] at hle hrounds
  obtain ⟨rounds, rfl⟩ : ∃ n, rounds = n + 1 := ⟨rounds - 1, by omega⟩
  have hsplit : ofNat label.length :: (label ++ rest) ++ [0] =
      (ofNat label.length :: label) ++ (rest ++ [0]) := by simp
  rw [hsplit] at hat hdrop
  have hrest := hat.right
  have hmid : (msg.drop (off + 1)).take label.length = label := by
    rw [← drop_drop, hdrop]
    simp
  rw [append_assoc, cons_append] at hdrop
  rw [visitLoop, if_neg (by omega), hdrop, nextLabel_label hpos hlen hdot]
  have hne : (1 : ℕ) ≠ 1 + label.length := by
    have : label.length ≠ 0 := by simpa using hpos
    omega
  simp only [if_neg hne, Bool.false_eq_true, if_false, u16_of_lt (show off + 1 < 65536 by omega),
    u16_of_lt (show off + (1 + label.length) < 65536 by omega)]
  rw [if_neg (by omega), show off + (1 + label.length) - (off + 1) = label.length by omega, hmid,
    show off + (1 + label.length) = off + (ofNat label.length :: label).length by
      rw [length_cons]; omega,
    ih rounds _ newOff _ hrest (by omega)]
  simp [Nat.add_assoc, Nat.add_comm]
  omega

theorem nameDecode_at {name : List UInt8} {off : ℕ} (hmsg : msg.length ≤ 65535) (h : WireName name)
    (hat : At msg off name) : nameDecode msg off = .done (off + name.length) name := by
  obtain ⟨labels, hlabels, rfl⟩ := h
  have hle := hat.le
  have hvisit : skipName msg off = .done (off + labels.length + 1) labels := by
    rw [skipName, visitAllLabels, if_neg (by omega)]
    have hloop := visitLoop_labels hmsg hlabels (visitRounds msg) off off [] hat
      (by simp only [length_append] at hle; unfold visitRounds; omega)
    exact hloop
  rw [nameDecode_done hvisit]
  simp [Nat.add_assoc]

theorem Labels.append {a b : List UInt8} (ha : Labels a) (hb : Labels b) : Labels (a ++ b) := by
  induction ha with
  | nil => exact hb
  | @cons label rest hpos hlen hdot _ ih =>
    have hall := Labels.cons hpos hlen hdot ih
    simpa using hall

theorem nextLabel_plain {data : List UInt8} {start endRel : ℕ}
    (h : nextLabel data = .ok (start, endRel, false)) (hne : start ≠ endRel) :
    start = 1 ∧ ∃ label rest, data = ofNat label.length :: (label ++ rest) ∧ label ≠ [] ∧
      label.length < 64 ∧ 46 ∉ label ∧ endRel = 1 + label.length := by
  cases data with
  | nil => cases h
  | cons b rest =>
  have hsmall : ∀ n < 256, n &&& 192 = 0 → n < 64 := by decide +kernel
  unfold nextLabel at h
  simp only [] at h
  split_ifs at h with h1 h2 h3 h4
  · cases h
    exact absurd rfl hne
  · cases h
    have hlt := hsmall _ b.toNat_lt h1
    have hlen : (rest.take b.toNat).length = b.toNat := by
      rw [length_take]
      omega
    refine ⟨rfl, rest.take b.toNat, rest.drop b.toNat, ?_, ?_, by omega, by simpa using h4,
      by rw [hlen]⟩
    · rw [hlen, take_append_drop]
      simp
    intro hnil
    rw [hnil] at hlen
    exact h2 hlen.symm
  cases rest with
  | nil | cons => cases h

theorem visitLoop_wire (allowCompression : Bool) (rounds : ℕ) :
    ∀ (off ptr newOff : ℕ) (data : List UInt8) {e : ℕ} {out : List UInt8}, Labels data →
    msg.length ≤ 65535 →
    visitLoop msg allowCompression rounds off ptr newOff data = .done e out → Labels out := by
  induction rounds with
  | zero =>
    intro off ptr newOff data e out _ _ h
    cases h
  | succ rounds ih =>
  intro off ptr newOff data e out hdata hmsg h
  rw [visitLoop] at h
  by_cases hoff : msg.length < off
  · rw [if_pos hoff] at h
    cases h
  rw [if_neg hoff] at h
  cases hnext : nextLabel (msg.drop off) with
  | error err => simp [hnext] at h
  | ok label =>
  obtain ⟨start, endRel, isPtr⟩ := label
  simp only [hnext] at h
  by_cases hsame : start = endRel
  · rw [if_pos hsame] at h
    cases h
    exact hdata
  rw [if_neg hsame] at h
  cases isPtr with
  | true =>
    simp only [if_true] at h
    split at h
    · cases h
    split at h
    · cases h
    split at h
    · cases h
    exact ih _ _ _ _ hdata hmsg h
  | false =>
  obtain ⟨rfl, label, rest, hdrop, hpos, hlen, hdot, rfl⟩ := nextLabel_plain hnext hsame
  have hroom := congrArg length hdrop
  simp only [length_drop, length_cons, length_append] at hroom
  have hmid : (msg.drop (off + 1)).take label.length = label := by
    rw [← drop_drop, hdrop]
    simp
  rw [if_neg (by simp), u16_of_lt (show off + (1 + label.length) < 65536 by omega),
    u16_of_lt (show off + 1 < 65536 by omega), if_neg (by omega),
    show off + (1 + label.length) - (off + 1) = label.length by omega, hmid] at h
  have hone := Labels.cons hpos hlen hdot .nil
  rw [append_nil] at hone
  exact ih _ _ _ _ (hdata.append hone) hmsg h

theorem nameDecode_wire {name : List UInt8} {off e : ℕ} (h : nameDecode msg off = .done e name) :
    WireName name := by
  unfold nameDecode at h
  cases hvisit : visitAllLabels msg off true with
  | crash | fail => simp [hvisit, andThen] at h
  | done e' data =>
  simp only [hvisit, andThen] at h
  cases h
  refine ⟨data, ?_, rfl⟩
  have hlong := (visitAllLabels_done hvisit).2.2
  rw [visitAllLabels, if_neg (by omega)] at hvisit
  exact visitLoop_wire true _ _ _ _ _ .nil hlong hvisit

/-- The fields are the 16-bit and 32-bit numbers that the types of the source hold. -/
def QuestionTyped (q : Question) : Prop := q.type < 65536 ∧ q.class_ < 65536

def ResourceTyped (r : Resource) : Prop :=
  r.type < 65536 ∧ r.class_ < 65536 ∧ r.ttl < 4294967296 ∧ r.length < 65536

section Records
variable {msg : List UInt8} {off : ℕ}

theorem questionDecode_at {q : Question} (hmsg : msg.length ≤ 65535) (hname : WireName q.name)
    (htyped : QuestionTyped q) (hat : At msg off (questionWire q)) :
    questionDecode msg off = .done (off + (questionWire q).length) q := by
  have hle := hat.le
  have hrest := hat.right
  rw [length_questionWire] at hle
  simp only [questionDecode, nameDecode_at hmsg hname hat.left, andThen]
  rw [u16_of_lt (by omega), u16_of_lt (by omega), if_neg (by omega),
    u16_of_lt (show off + q.name.length + 2 < 65536 by omega), hrest.left.be16,
    show off + q.name.length + 2 = off + q.name.length + (put16 q.type).length from rfl,
    hrest.right.be16, u16_of_lt htyped.1, u16_of_lt htyped.2, length_questionWire, Nat.add_assoc]

/-- The data of a CNAME that is not a name must not decode as one where it stands. -/
def Opaque (msg : List UInt8) (off : ℕ) (r : Resource) : Prop :=
  r.type = typeCNAME → ¬ WireName r.data →
    ∀ e name, nameDecode msg (off + r.name.length + 10) ≠ .done e name

section
variable {r : Resource} (hmsg : msg.length ≤ 65535) (hname : WireName r.name)
  (htyped : ResourceTyped r) (hat : At msg off (resourceWire r))
include hmsg hname htyped hat

theorem headerDecode_at :
    headerDecode msg off = .done (off + r.name.length + 10) { r with data := [] } := by
  have hle := hat.le
  have h1 : At msg (off + r.name.length) (fixedWire r) := hat.right.left
  have h2 : At msg (off + r.name.length + 2) (put16 r.class_ ++ (put32 r.ttl ++ put16 r.length)) :=
    h1.right
  have h3 : At msg (off + r.name.length + 4) (put32 r.ttl ++ put16 r.length) := h2.right
  have h4 : At msg (off + r.name.length + 8) (put16 r.length) := h3.right
  rw [length_resourceWire] at hle
  obtain ⟨t1, t2, t3, t4⟩ := htyped
  simp only [headerDecode, nameDecode_at hmsg hname hat.left, andThen]
  rw [u16_of_lt (show off + r.name.length + 10 < 65536 by omega),
    u16_of_lt (show msg.length < 65536 by omega), if_neg (by omega),
    u16_of_lt (show off + r.name.length + 2 < 65536 by omega),
    u16_of_lt (show off + r.name.length + 4 < 65536 by omega),
    u16_of_lt (show off + r.name.length + 8 < 65536 by omega), h1.left.be16, h2.left.be16,
    h3.left.be32, h4.be16, u16_of_lt t1, u16_of_lt t2, u16_of_lt t4, Nat.mod_eq_of_lt t3]

theorem resourceDecode_at (hlen : r.length = r.data.length) :
    resourceDecode msg off = .done (off + (resourceWire r).length) r ↔ Opaque msg off r := by
  have hle := hat.le
  have hdata : At msg (off + r.name.length + 10) r.data := hat.right.right
  obtain ⟨after, hdrop⟩ := hdata.drop
  have hend : off + (resourceWire r).length = off + r.name.length + 10 + r.data.length := by
    rw [length_resourceWire]
    omega
  rw [hend] at hle ⊢
  have hraw : (msg.drop (off + r.name.length + 10)).take
      (off + r.name.length + 10 + r.data.length - (off + r.name.length + 10)) = r.data := by
    rw [hdrop, Nat.add_sub_cancel_left, take_left]
  simp only [resourceDecode, headerDecode_at hmsg hname htyped hat, andThen, hlen]
  rw [if_neg (by omega), u16_of_lt (show msg.length - (off + r.name.length + 10) < 65536 by omega),
    if_neg (by omega), u16_of_lt (show off + r.name.length + 10 + r.data.length < 65536 by omega),
    if_neg (show ¬ (_ ∨ _) by omega)]
  rw [hraw]
  have hself : ({ r with length := r.data.length, data := r.data } : Resource) = r := by rw [← hlen]
  by_cases htype : r.type = typeCNAME
  · rw [if_pos htype]
    cases hcname : nameDecode msg (off + r.name.length + 10) with
    | crash fault =>
      exact absurd hcname (nameDecode_noCrash (by omega) fault)
    | fail e err =>
      simp only [hself, true_iff]
      intro _ _ e' name heq
      rw [hcname] at heq
      cases heq
    | done e name =>
    by_cases hwire : WireName r.data
    · -- the name that is read is the data
      rw [nameDecode_at hmsg hwire hdata] at hcname
      cases hcname
      simp only [u16_of_lt (show r.data.length < 65536 by omega), hself, true_iff]
      exact fun _ hno => absurd hwire hno
    refine ⟨fun heq => ?_, fun hstays => absurd hcname (hstays htype hwire e name)⟩
    have hname' := congrArg Resource.data (done.inj heq).2
    refine absurd ?_ hwire
    rw [← hname']
    exact nameDecode_wire hcname
  · rw [if_neg htype]
    simp only [hself, true_iff]
    exact fun hcname => absurd hcname htype

theorem resourceDecode_at_next {value : Resource} {next : ℕ} (hlen : r.length = r.data.length)
    (h : resourceDecode msg off = .done next value) : next = off + (resourceWire r).length := by
  rw [length_resourceWire]
  obtain ⟨e, data, n, hskip, hn, -, rfl⟩ := resourceDecode_end h
  have hat' : At msg (off + r.name.length + 8) (put16 r.length) := hat.right.left.right.right.right
  have he : e = off + r.name.length := by
    have hboth := nameDecode_done hskip
    rw [nameDecode_at hmsg hname hat.left] at hboth
    exact (done.inj hboth).1.symm
  rw [he, hat'.be16, u16_of_lt htyped.2.2.2, hlen] at hn
  cases hn
  omega

end

def OpaqueAll (msg : List UInt8) : ℕ → List Resource → Prop
  | _, [] => True
  | off, r :: rs => Opaque msg off r ∧ OpaqueAll msg (off + (resourceWire r).length) rs

theorem reads_questions (hmsg : msg.length ≤ 65535)
    (hqs : ∀ q ∈ qs, WireName q.name ∧ QuestionTyped q) (hat : At msg off (qs.flatMap questionWire))
    : Reads (questionDecode msg) off qs (off + (qs.flatMap questionWire).length) := by
  induction qs generalizing off with
  | nil => exact .nil off
  | cons q qs ih =>
  rw [flatMap_cons] at hat ⊢
  obtain ⟨hname, htyped⟩ := hqs q mem_cons_self
  have hrest := ih (fun q' hq' => hqs q' (mem_cons_of_mem q hq')) hat.right
  rw [length_append, ← Nat.add_assoc]
  exact .cons (questionDecode_at hmsg hname htyped hat.left) hrest

theorem reads_resources_iff {rs : List Resource} (hmsg : msg.length ≤ 65535)
    (hrs : ∀ r ∈ rs, WireName r.name ∧ ResourceTyped r ∧ r.length = r.data.length)
    (hat : At msg off (rs.flatMap resourceWire)) :
    Reads (resourceDecode msg) off rs (off + (rs.flatMap resourceWire).length) ↔
      OpaqueAll msg off rs := by
  induction rs generalizing off with
  | nil => exact ⟨fun _ => trivial, fun _ => .nil off⟩
  | cons r rs ih =>
  rw [flatMap_cons] at hat ⊢
  obtain ⟨hname, htyped, hlen⟩ := hrs r mem_cons_self
  have hrest := ih (fun r' hr' => hrs r' (mem_cons_of_mem r hr')) hat.right
  rw [length_append, ← Nat.add_assoc]
  constructor
  · intro h
    cases h with
    | cons hr htail =>
      obtain rfl := resourceDecode_at_next hmsg hname htyped hat.left hlen hr
      exact ⟨(resourceDecode_at hmsg hname htyped hat.left hlen).1 hr, hrest.1 htail⟩
  · rintro ⟨h1, h2⟩
    exact .cons ((resourceDecode_at hmsg hname htyped hat.left hlen).2 h1) (hrest.2 h2)

end Records

theorem Reads.unique {α : Type} {decode : ℕ → Outcome α} {off last last' : ℕ} {xs : List α}
    (h : Reads decode off xs last) (h' : Reads decode off xs last') : last = last' := by
  induction h with
  | nil =>
    cases h'
    rfl
  | cons hx _ ih =>
  cases h' with
  | cons hx' htail =>
    rw [hx] at hx'
    cases hx'
    exact ih htail

/-- Names without compression, fields in their types, and lengths as far as 16 bits tell. -/
structure Wellformed (m : Message) : Prop where
  questions : ∀ q ∈ m.questions, WireName q.name ∧ QuestionTyped q
  resources : ∀ r ∈ m.resources,
    WireName r.name ∧ ResourceTyped r ∧ r.length = u16 r.data.length

structure Returns (d : Decoded) (m : Message) (size : ℕ) : Prop where
  questions : d.q = some m.questions
  answers : d.answers = some m.answers
  authorities : d.authorities = some m.authorities
  additionals : d.additionals = some m.additionals
  result : d.result = .done size true

section Messages
variable {m : Message} {txid flags : ℕ}

def resourcesAt (m : Message) : ℕ := sizeHeader + (m.questions.flatMap questionWire).length

theorem at_questions (m : Message) (txid flags : ℕ) :
    At (m.wire txid flags) sizeHeader (m.questions.flatMap questionWire) :=
  ⟨m.header txid flags, m.resources.flatMap resourceWire, rfl, rfl⟩

theorem at_resources (m : Message) (txid flags : ℕ) :
    At (m.wire txid flags) (resourcesAt m) (m.resources.flatMap resourceWire) :=
  ⟨m.header txid flags ++ m.questions.flatMap questionWire, [], by simp [Message.wire],
    by simp [resourcesAt, length_header, sizeHeader]⟩

theorem length_wire (m : Message) (txid flags : ℕ) :
    (m.wire txid flags).length = resourcesAt m + (m.resources.flatMap resourceWire).length := by
  simp [Message.wire, resourcesAt, length_header, sizeHeader, Nat.add_assoc]

theorem length_le_flatMap {α : Type} {wire : α → List UInt8} {xs : List α}
    (h : ∀ x ∈ xs, wire x ≠ []) : xs.length ≤ (xs.flatMap wire).length := by
  induction xs with
  | nil => simp
  | cons x xs ih =>
  have hx := length_pos_iff.2 (h x mem_cons_self)
  have hxs := ih fun y hy => h y (mem_cons_of_mem x hy)
  rw [flatMap_cons, length_append, length_cons]
  omega

theorem counts_le (m : Message) (txid flags : ℕ) :
    m.questions.length + m.resources.length ≤ (m.wire txid flags).length := by
  have hq : m.questions.length ≤ (m.questions.flatMap questionWire).length :=
    length_le_flatMap fun q _ hnil => by
      have := congrArg length hnil
      rw [length_questionWire] at this
      cases this
  have hr : m.resources.length ≤ (m.resources.flatMap resourceWire).length :=
    length_le_flatMap fun r _ hnil => by
      have := congrArg length hnil
      rw [length_resourceWire, length_nil] at this
      omega
  rw [length_wire, resourcesAt]
  omega

theorem counts_at (m : Message) (txid flags : ℕ) (hsize : (m.wire txid flags).length ≤ 65535) :
    be16 (m.wire txid flags) 4 = some m.questions.length ∧
    be16 (m.wire txid flags) 6 = some m.answers.length ∧
    be16 (m.wire txid flags) 8 = some m.authorities.length ∧
    be16 (m.wire txid flags) 10 = some m.additionals.length := by
  have hle := counts_le m txid flags
  have hres : m.resources.length =
      m.answers.length + m.authorities.length + m.additionals.length := by
    simp [Message.resources, Nat.add_assoc]
  have hone : ∀ {off n : ℕ}, At (m.wire txid flags) off (put16 (u16 n)) → n < 65536 →
      be16 (m.wire txid flags) off = some n := by
    intro off n hat hn
    rw [hat.be16, u16_of_lt hn, u16_of_lt hn]
  have hhead : At (m.wire txid flags) 0 (m.header txid flags) := ⟨[], _, rfl, rfl⟩
  refine ⟨hone ?_ (by omega), hone ?_ (by omega), hone ?_ (by omega), hone ?_ (by omega)⟩
  · exact hhead.left.left.left.right
  · exact hhead.left.left.right
  · exact hhead.left.right
  · exact hhead.right

section
variable (hm : Wellformed m) (hsize : (m.wire txid flags).length ≤ 65535)
include hm hsize

theorem exact_lengths :
    ∀ r ∈ m.resources, WireName r.name ∧ ResourceTyped r ∧ r.length = r.data.length := by
  intro r hr
  obtain ⟨hname, htyped, hlen⟩ := hm.resources r hr
  have hle : (resourceWire r).length ≤ (m.resources.flatMap resourceWire).length :=
    (sublist_flatten_of_mem (mem_map_of_mem hr)).length_le
  rw [length_resourceWire] at hle
  rw [length_wire] at hsize
  rw [u16_of_lt (by omega)] at hlen
  exact ⟨hname, htyped, hlen⟩

theorem sections_of_wire (hstays : OpaqueAll (m.wire txid flags) (resourcesAt m) m.resources) :
    Sections (m.wire txid flags) m.questions m.answers m.authorities m.additionals
      (m.wire txid flags).length := by
  obtain ⟨h1, h2, h3, h4⟩ := counts_at m txid flags hsize
  have hle : sizeHeader ≤ (m.wire txid flags).length := by
    rw [length_wire, resourcesAt]
    omega
  refine ⟨hle, by rw [h1]; rfl, by rw [h2]; rfl, by rw [h3]; rfl, by rw [h4]; rfl, resourcesAt m,
    reads_questions hsize hm.questions (at_questions m txid flags), ?_⟩
  rw [length_wire]
  exact (reads_resources_iff hsize (exact_lengths hm hsize) (at_resources m txid flags)).2 hstays

end

section
variable {an ns ar : List Resource} {last : ℕ} (h : Sections msg qs an ns ar last)
include h

/-- A message whose sections are known decodes to them given room, as far as 16 bits
tell it. -/
theorem returns_iff_of_sections {q answers authorities additionals : ℕ} (hq : qs.length ≤ q)
    (han : an.length ≤ answers) (hns : ns.length ≤ authorities) (har : ar.length ≤ additionals) :
    Returns (decodeMessage (some q) (some answers) (some authorities) (some additionals) msg)
        ⟨qs, an, ns, ar⟩ last ↔
      an.length ≤ u16 answers ∧ ns.length ≤ u16 authorities ∧ ar.length ≤ u16 additionals := by
  obtain ⟨rest₁, rest₂, rest₃, off, e1, e2, e3, hreads, dq, dan, dns, dar, dres⟩ :=
    decodeMessage_of_sections h (some q) (some answers) (some authorities) (some additionals)
  have r1 : rest₁ = ns ++ ar := by
    rw [e1]
    simp [append_assoc]
  have r2 : rest₂ = ar := by
    rw [e2, r1]
    simp
  have r3 : rest₃ = [] := by
    rw [e3, r2]
    simp
  rw [r3] at hreads
  cases hreads
  rw [r1, map_some, take_left] at dns
  rw [r2, map_some, take_length] at dar
  rw [map_some] at dq dan
  have hfits : decide (qs.length ≤ (some q).getD 0 ∧ an.length ≤ (some answers).getD 0 ∧
      ns.length ≤ (some authorities).getD 0 ∧ ar.length ≤ (some additionals).getD 0) :=
    decide_eq_true ⟨hq, han, hns, har⟩
  rw [hfits] at dres
  constructor
  · rintro ⟨-, h2, h3, h4, -⟩
    rw [dan, some.injEq, take_eq_self_iff] at h2
    rw [dns, some.injEq, take_eq_self_iff] at h3
    rw [dar, some.injEq, take_eq_self_iff] at h4
    exact ⟨h2, h3, h4⟩
  rintro ⟨h2, h3, h4⟩
  refine ⟨?_, ?_, ?_, ?_, dres⟩
  · rw [dq, take_of_length_le hq]
  · rw [dan, take_of_length_le h2]
  · rw [dns, take_of_length_le h3]
  · rw [dar, take_of_length_le h4]

theorem unlimited_of_sections : Returns (unlimited msg) ⟨qs, an, ns, ar⟩ last := by
  have hcount := fun i => Nat.le_of_lt_succ (count_lt msg i)
  have h1 := h.qdCount ▸ hcount 4
  have h2 := h.anCount ▸ hcount 6
  have h3 := h.nsCount ▸ hcount 8
  have h4 := h.arCount ▸ hcount 10
  exact (returns_iff_of_sections h h1 h2 h3 h4).2 ⟨h2, h3, h4⟩

theorem size_of_sections (hsome : qs ≠ [] ∨ an ++ ns ++ ar ≠ []) : msg.length ≤ 65535 := by
  obtain ⟨mid, hq, hr⟩ := h.reads
  rcases hsome with hne | hne
  · cases hq with
    | nil => exact absurd rfl hne
    | cons hx _ =>
      obtain ⟨_, _, hname, -, -⟩ := questionDecode_end hx
      exact (visitAllLabels_done hname).2.2
  generalize an ++ ns ++ ar = rs at hr hne
  cases hr with
  | nil => exact absurd rfl hne
  | cons hx _ =>
    obtain ⟨_, _, _, hname, -, -, -⟩ := resourceDecode_end hx
    exact (visitAllLabels_done hname).2.2

end

/-- An encoded message decodes to itself exactly when it is of 16-bit size and its opaque
CNAME data stays opaque. -/
theorem unlimited_returns_iff (hm : Wellformed m) :
    Returns (unlimited (m.wire txid flags)) m (m.wire txid flags).length ↔
      (m.wire txid flags).length ≤ 65535 ∧
        OpaqueAll (m.wire txid flags) (resourcesAt m) m.resources := by
  constructor
  · intro h
    obtain ⟨qs, an, ns, ar, hsec, hq, han, hns, har⟩ := sections_of_unlimited h.result
    cases h.questions.symm.trans hq
    cases h.answers.symm.trans han
    cases h.authorities.symm.trans hns
    cases h.additionals.symm.trans har
    have hsize : (m.wire txid flags).length ≤ 65535 := by
      by_cases hsome : m.questions ≠ [] ∨ m.resources ≠ []
      · exact size_of_sections hsec hsome
      rw [not_or, not_not, not_not] at hsome
      rw [length_wire, resourcesAt, hsome.1, hsome.2]
      simp [sizeHeader]
    refine ⟨hsize, ?_⟩
    obtain ⟨mid, hq, hr⟩ := hsec.reads
    obtain rfl := Reads.unique hq (reads_questions hsize hm.questions (at_questions m txid flags))
    rw [length_wire] at hr
    exact (reads_resources_iff hsize (exact_lengths hm hsize) (at_resources m txid flags)).1 hr
  · rintro ⟨hsize, hstays⟩
    exact unlimited_of_sections (sections_of_wire hm hsize hstays)

end Messages

section Decoded
variable {msg : List UInt8}

theorem be32_lt {i n : ℕ} (h : be32 msg i = some n) : n < 4294967296 := by
  unfold be32 at h
  split_ifs at h
  have h1 := (msg.getD i 0).toNat_lt
  have h2 := (msg.getD (i + 1) 0).toNat_lt
  have h3 := (msg.getD (i + 2) 0).toNat_lt
  have h4 := (msg.getD (i + 3) 0).toNat_lt
  cases h
  omega

theorem questionDecode_wellformed {off next : ℕ} {q : Question}
    (h : questionDecode msg off = .done next q) : WireName q.name ∧ QuestionTyped q := by
  unfold questionDecode at h
  cases hname : nameDecode msg off with
  | crash | fail => simp [hname, andThen] at h
  | done e name =>
  simp only [hname, andThen] at h
  split_ifs at h
  split at h
  · rename_i h1 h2
    cases h
    exact ⟨nameDecode_wire hname, be16_lt h1, be16_lt h2⟩
  · cases h

theorem headerDecode_wellformed {off next : ℕ} {r : Resource}
    (h : headerDecode msg off = .done next r) : WireName r.name ∧ ResourceTyped r := by
  unfold headerDecode at h
  cases hname : nameDecode msg off with
  | crash | fail => simp [hname, andThen] at h
  | done e name =>
  simp only [hname, andThen] at h
  split_ifs at h
  split at h
  · rename_i h1 h2 h3 h4
    cases h
    exact ⟨nameDecode_wire hname, be16_lt h1, be16_lt h2, be32_lt h3, be16_lt h4⟩
  · cases h

theorem resourceDecode_wellformed {off next : ℕ} {r : Resource}
    (h : resourceDecode msg off = .done next r) :
    WireName r.name ∧ ResourceTyped r ∧ r.length = u16 r.data.length := by
  have hlen := resourceDecode_length h
  obtain ⟨e, data, n, hname, hn, hroom, -⟩ := resourceDecode_end h
  have hlong := (visitAllLabels_done hname).2.2
  obtain ⟨head, n', hn', hhead, rfl⟩ := headerDecode_done hname (by omega) (by omega)
  rw [u16_of_lt (show e + 8 < 65536 by omega), hn] at hn'
  obtain rfl := some.inj hn'
  obtain ⟨hwire, t1, t2, t3, -⟩ := headerDecode_wellformed hhead
  obtain ⟨bytes, length, hdone, hkept⟩ := resourceDecode_body hhead hlong hroom
  rw [hdone] at h
  cases h
  refine ⟨hwire, ⟨t1, t2, t3, hlen⟩, ?_⟩
  rcases hkept with ⟨h1, h2⟩ | h1
  · change length = u16 bytes.length
    rw [h1, h2, u16_of_lt (by omega)]
  · exact h1

theorem chain_forall {α : Type} {decode : ℕ → Outcome α} {P : α → Prop} {off : ℕ} {xs : List α}
    (hP : ∀ off next value, decode off = .done next value → P value)
    (h : Chain decode off xs) : ∀ x ∈ xs, P x := by
  induction h with
  | nil => simp
  | cons hx _ ih => exact forall_mem_cons.2 ⟨hP _ _ _ hx, ih⟩

end Decoded

def decodedMessage (d : Decoded) : Message :=
  ⟨d.q.getD [], d.answers.getD [], d.authorities.getD [], d.additionals.getD []⟩

theorem decoded_wellformed (q answers authorities additionals : ℕ) (msg : List UInt8) :
    Wellformed (decodedMessage (decodeMessage (some q) (some answers) (some authorities)
      (some additionals) msg)) := by
  by_cases hshort : msg.length < sizeHeader
  · rw [decodeMessage, if_pos hshort]
    exact ⟨by simp [decodedMessage], by simp [decodedMessage, Message.resources]⟩
  rw [decodeMessage, if_neg hshort]
  have hres : ∀ {α : Type} (a : Batch α) (dst : Option ℕ) (n : ℕ),
      ∀ r ∈ (a.next (decodeToCapResources dst msg n)).items,
        WireName r.name ∧ ResourceTyped r ∧ r.length = u16 r.data.length := by
    intro α a dst n
    obtain ⟨off, hchain⟩ := chain_resources a dst msg n
    exact chain_forall (fun _ _ _ => resourceDecode_wellformed) hchain
  refine ⟨chain_forall (fun _ _ _ => questionDecode_wellformed) (chain_records _ _), ?_⟩
  intro r hr
  rcases mem_append.1 hr with hr | hr
  · rcases mem_append.1 hr with hr | hr
    · exact hres _ _ _ r hr
    · exact hres _ _ _ r hr
  · exact hres _ _ _ r hr

def ValidName (name : List UInt8) : Prop := WireName name ∧ name.length ≤ 255

structure Valid (m : Message) : Prop where
  questions : ∀ q ∈ m.questions, ValidName q.name ∧ QuestionTyped q
  resources : ∀ r ∈ m.resources, ValidName r.name ∧ ResourceTyped r ∧
    r.length = r.data.length ∧ (r.type = typeCNAME → ValidName r.data)

/-- As many bytes are appended as the length says, and they are decoded with the given
capacities to the message and its length. -/
structure EncodesBack (alloc : Allocator) (buf : Slice) (txid flags : ℕ) (m : Message)
    (q answers authorities additionals : ℕ) (out : Slice) (encoded : List UInt8) : Prop where
  appended : m.appendTo alloc buf txid flags = .ok out
  bytes : out.bytes = buf.bytes ++ encoded
  length : m.len = .ok encoded.length
  decoded : Returns (decodeMessage (some q) (some answers) (some authorities) (some additionals)
    encoded) m encoded.length

section EncodesBack
variable {alloc : Allocator} {buf : Slice} {txid flags : ℕ} {m : Message}

theorem Valid.wellformed (h : Valid m) : Wellformed m := by
  refine ⟨fun q hq => ⟨(h.questions q hq).1.1, (h.questions q hq).2⟩, fun r hr => ?_⟩
  obtain ⟨hname, htyped, hlen, -⟩ := h.resources r hr
  refine ⟨hname.1, htyped, ?_⟩
  rw [← hlen, u16_of_lt htyped.2.2.2]

theorem opaqueAll_of_forall {off : ℕ} {rs : List Resource} (h : ∀ r ∈ rs, ∀ off, Opaque msg off r) :
    OpaqueAll msg off rs := by
  induction rs generalizing off with
  | nil => trivial
  | cons r rs ih =>
    exact ⟨h r mem_cons_self off, ih fun r' hr' => h r' (mem_cons_of_mem r hr')⟩

theorem WireName.ne_nil {name : List UInt8} (h : WireName name) : name ≠ [] := by
  obtain ⟨labels, -, rfl⟩ := h
  simp

theorem Wellformed.names (h : Wellformed m) : ∀ name ∈ m.names, name ≠ [] := by
  intro name hname
  rcases mem_append.1 hname with hmem | hmem
  · obtain ⟨q, hq, rfl⟩ := mem_map.1 hmem
    exact (h.questions q hq).1.ne_nil
  · obtain ⟨r, hr, rfl⟩ := mem_map.1 hmem
    exact (h.resources r hr).1.ne_nil

theorem length_name_le {name : List UInt8} (h : name ∈ m.names) :
    name.length ≤ (m.wire txid flags).length := by
  rw [length_wire, resourcesAt]
  rcases mem_append.1 h with hmem | hmem
  · obtain ⟨q, hq, rfl⟩ := mem_map.1 hmem
    have hle : (questionWire q).length ≤ (m.questions.flatMap questionWire).length :=
      (sublist_flatten_of_mem (mem_map_of_mem hq)).length_le
    rw [length_questionWire] at hle
    omega
  obtain ⟨r, hr, rfl⟩ := mem_map.1 hmem
  have hle : (resourceWire r).length ≤ (m.resources.flatMap resourceWire).length :=
    (sublist_flatten_of_mem (mem_map_of_mem hr)).length_le
  rw [length_resourceWire] at hle
  omega

theorem EncodesBack.returns {q answers authorities additionals : ℕ} {out : Slice}
    {encoded : List UInt8} (hm : Wellformed m)
    (h : EncodesBack alloc buf txid flags m q answers authorities additionals out encoded) :
    Returns (decodeMessage (some q) (some answers) (some authorities) (some additionals)
      (m.wire txid flags)) m (m.wire txid flags).length := by
  have hbytes := h.bytes
  rw [appendTo_bytes hm.names h.appended] at hbytes
  obtain rfl := append_cancel_left hbytes
  exact h.decoded

theorem encodesBack_of_returns {q answers authorities additionals : ℕ} (hm : Wellformed m)
    (hsize : (m.wire txid flags).length ≤ 65535)
    (h : Returns (decodeMessage (some q) (some answers) (some authorities) (some additionals)
      (m.wire txid flags)) m (m.wire txid flags).length) :
    ∃ out encoded, EncodesBack alloc buf txid flags m q answers authorities additionals out
      encoded := by
  have hshort : ∀ name ∈ m.names, name.length ≤ 65535 :=
    fun name hname => (length_name_le hname).trans hsize
  obtain ⟨out, hout⟩ := appendTo_fits alloc buf hm.names hshort hsize
  have hlen : m.len = .ok (u16 (m.wire txid flags).length) := len_wire hshort
  rw [u16_of_lt (by omega)] at hlen
  exact ⟨out, m.wire txid flags, hout, appendTo_bytes hm.names hout, hlen, h⟩

end EncodesBack

/-- Valid messages come back when the lower 16 bits of every capacity for resources hold
the records, decoded ones when they are of 16-bit size without compression and no CNAME
data becomes a name in its new place. -/
theorem encodesBack_iff (alloc : Allocator) (buf : Slice) (txid flags : ℕ)
    (m : Message) (hm : Valid m) (hsize : (m.wire txid flags).length ≤ 65535)
    (q answers authorities additionals : ℕ) (hq : m.questions.length ≤ q)
    (han : m.answers.length ≤ answers) (hns : m.authorities.length ≤ authorities)
    (har : m.additionals.length ≤ additionals)
    (msg : List UInt8) (q' answers' authorities' additionals' : ℕ) (d : Decoded)
    (hd : decodeMessage (some q') (some answers') (some authorities') (some additionals') msg = d) :
    ((∃ out encoded, EncodesBack alloc buf txid flags m q answers authorities additionals out
        encoded) ↔ m.answers.length ≤ u16 answers ∧ m.authorities.length ≤ u16 authorities ∧
        m.additionals.length ≤ u16 additionals) ∧
    ((∃ out encoded, EncodesBack alloc buf txid flags (decodedMessage d) 65535 65535 65535 65535
        out encoded) ↔ ((decodedMessage d).wire txid flags).length ≤ 65535 ∧
      OpaqueAll ((decodedMessage d).wire txid flags) (resourcesAt (decodedMessage d))
        (decodedMessage d).resources) := by
  constructor
  · have hstays : OpaqueAll (m.wire txid flags) (resourcesAt m) m.resources :=
      opaqueAll_of_forall fun r hr _ hcname hno =>
        absurd ((hm.resources r hr).2.2.2 hcname).1 hno
    have hsec := sections_of_wire hm.wellformed hsize hstays
    have hiff := returns_iff_of_sections hsec hq han hns har
    constructor
    · rintro ⟨out, encoded, h⟩
      exact hiff.1 (h.returns hm.wellformed)
    · intro h
      exact encodesBack_of_returns hm.wellformed hsize (hiff.2 h)
  have hwell : Wellformed (decodedMessage d) := hd ▸ decoded_wellformed _ _ _ _ _
  constructor
  · rintro ⟨out, encoded, h⟩
    exact (unlimited_returns_iff hwell).1 (h.returns hwell)
  · intro h
    exact encodesBack_of_returns hwell h.1 ((unlimited_returns_iff hwell).2 h)

def aliased : Message where
  questions := [{ name := [1, 97, 0], type := 1, class_ := 1 }]
  answers := [{ name := [1, 97, 0], type := 5, class_ := 1, ttl := 0, length := 3,
                data := [1, 98, 0] }]
  authorities := []
  additionals := []

theorem aliased_valid : Valid aliased := by
  have ha : ValidName [1, 97, 0] :=
    ⟨⟨[1, 97], @Labels.cons [97] [] (by decide) (by decide) (by decide) .nil, rfl⟩, by decide⟩
  have hb : ValidName [1, 98, 0] :=
    ⟨⟨[1, 98], @Labels.cons [98] [] (by decide) (by decide) (by decide) .nil, rfl⟩, by decide⟩
  refine ⟨?_, ?_⟩
  · intro q hq
    obtain rfl := mem_singleton.1 hq
    exact ⟨ha, by decide, by decide⟩
  intro r hr
  obtain rfl := mem_singleton.1 hr
  exact ⟨ha, ⟨by decide, by decide, by decide, by decide⟩, rfl, fun _ => hb⟩

def compressed : List UInt8 :=
  [0, 0, 0, 0, 0, 1, 0, 1, 0, 0, 0, 0] ++ [1, 97, 0, 0, 1, 0, 1] ++
    [192, 12, 0, 5, 0, 1, 0, 0, 0, 0, 0, 3, 1, 98, 0]

theorem compressed_decoded :
    decodedMessage (decodeMessage (some 1) (some 1) (some 0) (some 0) compressed) = aliased := by
  decide +kernel

def exactly : Allocator := ⟨id, fun _ => le_rfl⟩

def oneByte : Slice := ⟨[7], 1, by decide⟩

theorem encodesBack_iff_aliased :
    (∃ out encoded, EncodesBack exactly oneByte 0 0 aliased 1 1 0 0 out encoded) ∧
    (∃ out encoded, EncodesBack exactly oneByte 0 0
      (decodedMessage (decodeMessage (some 1) (some 1) (some 0) (some 0) compressed))
      65535 65535 65535 65535 out encoded) := by
  have hboth := encodesBack_iff exactly oneByte 0 0 aliased aliased_valid (by decide +kernel)
    1 1 0 0 (by decide) (by decide) (by decide) (by decide) compressed 1 1 0 0 _ rfl
  refine ⟨hboth.1.2 (by decide), hboth.2.2 ?_⟩
  rw [compressed_decoded]
  exact ⟨by decide +kernel, opaqueAll_of_forall fun r hr _ hcname hno =>
    absurd ((aliased_valid.resources r hr).2.2.2 hcname).1 hno⟩

/-- A CNAME whose pointer lies just behind the message. Written without compression, the
name before it grows by a byte and the pointer falls into the message. -/
def strayPointer : List UInt8 :=
  [0, 0, 0, 0, 0, 1, 0, 1, 0, 0, 0, 1] ++ [1, 97, 0, 0, 1, 0, 1] ++
    [192, 12, 0, 5, 0, 1, 0, 0, 0, 0, 0, 2, 192, 45] ++ [0, 0, 1, 0, 1, 0, 0, 0, 0, 0, 1, 0]

/-- A valid message is lost in a capacity of 65536; a decoded one comes back with other
CNAME data. -/
theorem encodesBack_fails : (Valid aliased ∧ (aliased.wire 0 0).length ≤ 65535 ∧
      ¬ ∃ out encoded, EncodesBack exactly oneByte 0 0 aliased 1 65536 0 0 out encoded) ∧
    (decodeMessage (some 1) (some 1) (some 0) (some 1) strayPointer).result = .done 45 true ∧
      ¬ ∃ out encoded, EncodesBack exactly oneByte 0 0
        (decodedMessage (decodeMessage (some 1) (some 1) (some 0) (some 1) strayPointer))
        65535 65535 65535 65535 out encoded := by
  refine ⟨⟨aliased_valid, by decide +kernel, ?_⟩, by decide +kernel, ?_⟩
  · rintro ⟨out, encoded, h⟩
    have hlost := (h.returns aliased_valid.wellformed).answers
    revert hlost
    decide +kernel
  rintro ⟨out, encoded, h⟩
  have hother := (h.returns (decoded_wellformed 1 1 0 1 strayPointer)).answers
  revert hother
  decide +kernel

end Lneto.DnsRoundTrip
