import Lneto.DnsNames

/-!
Decoding a DNS message: the header's four counts say how many questions and
resource records follow. Records beyond the capacity of their destination are
skipped. Every record decoded or skipped is a visit; visits are kept in order,
with the offset they ended at.
-/
namespace Lneto.DnsDecode

open DnsNames List Option Outcome

def be16 (msg : List UInt8) (i : ℕ) : Option ℕ :=
  if i + 2 ≤ msg.length then some ((msg.getD i 0).toNat * 256 + (msg.getD (i + 1) 0).toNat)
  else none

def be32 (msg : List UInt8) (i : ℕ) : Option ℕ :=
  if i + 4 ≤ msg.length then
    some ((((msg.getD i 0).toNat * 256 + (msg.getD (i + 1) 0).toNat) * 256 +
      (msg.getD (i + 2) 0).toNat) * 256 + (msg.getD (i + 3) 0).toNat)
  else none

structure Question where
  name : List UInt8
  type : ℕ
  class_ : ℕ
deriving DecidableEq, Repr

structure Resource where
  name : List UInt8
  type : ℕ
  class_ : ℕ
  ttl : ℕ
  length : ℕ
  data : List UInt8
deriving DecidableEq, Repr

def typeCNAME : ℕ := 5

def questionDecode (msg : List UInt8) (off : ℕ) : Outcome Question :=
  (nameDecode msg off).andThen fun off name =>
    if u16 msg.length < u16 (off + 4) then .fail off .resourceLen
    else
      match be16 msg off, be16 msg (u16 (off + 2)) with
      | some type, some class_ => .done (u16 (off + 4)) { name, type, class_ }
      | _, _ => .crash .sliceBounds

def headerDecode (msg : List UInt8) (off : ℕ) : Outcome Resource :=
  (nameDecode msg off).andThen fun off name =>
    if u16 msg.length < u16 (off + 10) then .fail off .resourceLen
    else
      match be16 msg off, be16 msg (u16 (off + 2)), be32 msg (u16 (off + 4)),
        be16 msg (u16 (off + 8)) with
      | some type, some class_, some ttl, some length =>
        .done (u16 (off + 10)) { name, type, class_, ttl, length, data := [] }
      | _, _, _, _ => .crash .sliceBounds

/-- The data of a CNAME is expanded when it decodes as a name. -/
def resourceDecode (msg : List UInt8) (off : ℕ) : Outcome Resource :=
  (headerDecode msg off).andThen fun off r =>
    if msg.length < off then .crash .sliceBounds
    else if u16 (msg.length - off) < r.length then .fail off .resourceLen
    else
      let endOff := u16 (off + r.length)
      let raw : Outcome Resource :=
        if endOff < off ∨ msg.length < endOff then .crash .sliceBounds
        else .done endOff { r with data := (msg.drop off).take (endOff - off) }
      if r.type = typeCNAME then
        match nameDecode msg off with
        | .crash fault => .crash fault
        | .fail _ _ => raw
        | .done _ data => .done endOff { r with data := data, length := u16 data.length }
      else raw

def skipQuestion (msg : List UInt8) (off : ℕ) : Outcome Unit :=
  (skipName msg off).andThen fun off _ =>
    if u16 msg.length < u16 (off + 4) then .fail off .truncatedFrame
    else .done (u16 (off + 4)) ()

def skipResource (msg : List UInt8) (off : ℕ) : Outcome Unit :=
  (skipName msg off).andThen fun off _ =>
    match be16 msg (u16 (off + 8)) with
    | none => .crash .sliceBounds
    | some datalen =>
      let off := u16 (off + u16 (datalen + 10))
      if u16 msg.length < off then .fail off .truncatedFrame else .done off ()

inductive Kind where
  | question
  | resource
  | skippedQuestion
  | skippedResource
deriving DecidableEq, Repr

/-- A record that was looked at: where it ended, and if accepted its length field and
the bytes kept. -/
structure Visit where
  kind : Kind
  off : ℕ
  next : Option ℕ := none
  stored : Option (ℕ × ℕ) := none
deriving DecidableEq, Repr

structure Batch (α : Type) where
  items : List α := []
  visits : List Visit := []
  result : Outcome Unit
deriving DecidableEq, Repr

def records {α : Type} (kind : Kind) (decode : ℕ → Outcome α) (stored : α → Option (ℕ × ℕ)) :
    ℕ → ℕ → Batch α
  | 0, off => { result := .done off () }
  | n + 1, off =>
    match decode off with
    | .crash fault => { visits := [{ kind, off }], result := .crash fault }
    | .fail next err => { visits := [{ kind, off }], result := .fail next err }
    | .done next value =>
      let rest := records kind decode stored n next
      { items := value :: rest.items
        visits := { kind, off, next := some next, stored := stored value } :: rest.visits
        result := rest.result }

/-- What follows a batch is reached only if the batch got through. -/
def Batch.next {α β : Type} (a : Batch α) (b : ℕ → Batch β) : Batch β :=
  match a.result with
  | .crash fault => { result := .crash fault }
  | .fail off err => { result := .fail off err }
  | .done off _ => b off

def Batch.thenSkip {α : Type} (a : Batch α) (b : ℕ → Batch Unit) : Batch α :=
  { items := a.items
    visits := a.visits ++ (a.next b).visits
    result := (a.next b).result }

def questions (msg : List UInt8) (n off : ℕ) : Batch Question :=
  records .question (questionDecode msg) (fun _ => none) n off

def resources (msg : List UInt8) (n off : ℕ) : Batch Resource :=
  records .resource (resourceDecode msg) (fun r => some (r.length, r.data.length)) n off

def skipQuestions (msg : List UInt8) (n off : ℕ) : Batch Unit :=
  records .skippedQuestion (skipQuestion msg) (fun _ => none) n off

def skipResources (msg : List UInt8) (n off : ℕ) : Batch Unit :=
  records .skippedResource (skipResource msg) (fun _ => none) n off

/-- The question section. A destination is nil or an empty slice of some capacity. -/
def decodeQuestions (q : Option ℕ) (msg : List UInt8) (qd off : ℕ) : Batch Question :=
  let nq := match q with
    | none => 0
    | some cap => if cap < qd then cap else qd
  (questions msg nq off).thenSkip (skipQuestions msg (qd - nq))

/-- A nil destination neither decodes nor skips its records. -/
def decodeToCapResources (dst : Option ℕ) (msg : List UInt8) (originalRec off : ℕ) :
    Batch Resource :=
  match dst with
  | none => { result := .done off () }
  | some cap =>
    let nrec := if u16 cap < originalRec then u16 cap else originalRec
    (resources msg nrec off).thenSkip (skipResources msg (originalRec - nrec))

def sizeHeader : ℕ := 12

/-- Without an error the flag says whether all records found room. -/
structure Decoded where
  q : Option (List Question) := none
  answers : Option (List Resource) := none
  authorities : Option (List Resource) := none
  additionals : Option (List Resource) := none
  visits : List Visit := []
  result : Outcome Bool
deriving DecidableEq, Repr

def decodeMessage (q answers authorities additionals : Option ℕ) (msg : List UInt8) : Decoded :=
  if msg.length < sizeHeader then
    { q := q.map fun _ => []
      answers := answers.map fun _ => []
      authorities := authorities.map fun _ => []
      additionals := additionals.map fun _ => []
      result := .fail 0 .truncatedFrame }
  else
    let count (i : ℕ) : ℕ := (be16 msg i).getD 0
    let complete : Bool := count 4 ≤ q.getD 0 ∧ count 6 ≤ answers.getD 0 ∧
      count 8 ≤ authorities.getD 0 ∧ count 10 ≤ additionals.getD 0
    let qs := decodeQuestions q msg (count 4) sizeHeader
    let an := qs.next (decodeToCapResources answers msg (count 6))
    let ns := an.next (decodeToCapResources authorities msg (count 8))
    let ar := ns.next (decodeToCapResources additionals msg (count 10))
    { q := q.map fun _ => qs.items
      answers := answers.map fun _ => an.items
      authorities := authorities.map fun _ => ns.items
      additionals := additionals.map fun _ => ar.items
      visits := qs.visits ++ an.visits ++ ns.visits ++ ar.visits
      result := ar.result.andThen fun off _ => .done off complete }

/-- Where a record of the given kind really ends, with no bound on the sum. -/
def extent (msg : List UInt8) (kind : Kind) (off : ℕ) : ℕ :=
  match skipName msg off with
  | .done e _ =>
    match kind with
    | .question | .skippedQuestion => e + 4
    | .resource | .skippedResource => e + 10 + (be16 msg (u16 (e + 8))).getD 0
  | _ => 0

/-- An accepted record ends where it should, inside the message, and its length field
counts the bytes kept of it. -/
structure Fine (msg : List UInt8) (v : Visit) : Prop where
  next : ∀ next, v.next = some next →
    v.off < next ∧ next ≤ msg.length ∧ next = extent msg v.kind v.off
  stored : ∀ length bytes, v.stored = some (length, bytes) → length = bytes

/-- What a record must satisfy if its name ends at e. No sum of offsets passes 65535
before it is compared with the size of the message; a skipped resource has its fixed
part inside, and an end beyond the message is found out; the name of a CNAME is shorter
than 65536 bytes. -/
def Good (msg : List UInt8) (kind : Kind) (off : ℕ) : Prop :=
  match skipName msg off with
  | .done e _ =>
    match kind with
    | .question | .skippedQuestion => e + 4 < 65536
    | .resource => e + 10 < 65536 ∧
        ∀ next r, resourceDecode msg off = .done next r → r.data.length < 65536
    | .skippedResource => u16 (e + 8) + 2 ≤ msg.length ∧
        (e + 10 + (be16 msg (u16 (e + 8))).getD 0 < 65536 ∨
          msg.length < u16 (e + 10 + (be16 msg (u16 (e + 8))).getD 0))
  | _ => True

theorem be16_lt {msg : List UInt8} {i n : ℕ} (h : be16 msg i = some n) : n < 65536 := by
  unfold be16 at h
  split_ifs at h
  have h1 := (msg.getD i 0).toNat_lt
  have h2 := (msg.getD (i + 1) 0).toNat_lt
  cases h
  omega

theorem be16_isSome (msg : List UInt8) (i : ℕ) (h : i + 2 ≤ msg.length) :
    ∃ n, be16 msg i = some n := ⟨_, if_pos h⟩

theorem be16_none (msg : List UInt8) (i : ℕ) (h : msg.length < i + 2) : be16 msg i = none :=
  if_neg (by omega)

def visitAt {α : Type} (kind : Kind) (decode : ℕ → Outcome α) (stored : α → Option (ℕ × ℕ))
    (off : ℕ) : Visit :=
  match decode off with
  | .done next value => { kind, off, next := some next, stored := stored value }
  | _ => { kind, off }

/-- Inside the message the records of this kind come out fine exactly when they are good. -/
structure Judged {α : Type} (msg : List UInt8) (kind : Kind) (decode : ℕ → Outcome α)
    (stored : α → Option (ℕ × ℕ)) : Prop where
  fine : ∀ off ≤ msg.length, Good msg kind off →
    (∀ fault, decode off ≠ .crash fault) ∧ Fine msg (visitAt kind decode stored off)
  good : ∀ off, (∀ fault, decode off ≠ .crash fault) →
    Fine msg (visitAt kind decode stored off) → Good msg kind off

theorem fine_unaccepted (msg : List UInt8) (kind : Kind) (off : ℕ) :
    Fine msg { kind, off } := ⟨by simp, by simp⟩

theorem fine_accepted {msg : List UInt8} {kind : Kind} {off next : ℕ} {stored : Option (ℕ × ℕ)}
    (hlt : off < next) (hle : next ≤ msg.length) (hend : next = extent msg kind off)
    (hstored : ∀ length bytes, stored = some (length, bytes) → length = bytes) :
    Fine msg { kind, off, next := some next, stored } := by
  refine ⟨fun n hn => ?_, hstored⟩
  cases hn
  exact ⟨hlt, hle, hend⟩

section Records
variable {msg : List UInt8} {off : ℕ}

theorem good_of_noName {kind : Kind} (h : ∀ e data, skipName msg off ≠ .done e data) :
    Good msg kind off := by
  unfold Good
  cases hname : skipName msg off with
  | done e data => exact absurd hname (h e data)
  | _ => trivial

section
variable {α : Type} {kind : Kind} {decode : ℕ → Outcome α} {stored : α → Option (ℕ × ℕ)}

theorem fine_of_fail {e : ℕ} {err : DnsErr} (h : decode off = .fail e err) :
    (∀ fault, decode off ≠ .crash fault) ∧ Fine msg (visitAt kind decode stored off) := by
  simp only [visitAt, h]
  exact ⟨by simp, fine_unaccepted _ _ _⟩

theorem Judged.of_name
    (hfail : ∀ off e err, skipName msg off = .fail e err → decode off = .fail e err)
    (hfine : ∀ off e data, skipName msg off = .done e data → Good msg kind off →
      (∀ fault, decode off ≠ .crash fault) ∧ Fine msg (visitAt kind decode stored off))
    (hgood : ∀ off e data, skipName msg off = .done e data →
      (∀ fault, decode off ≠ .crash fault) → Fine msg (visitAt kind decode stored off) →
      Good msg kind off) : Judged msg kind decode stored := by
  refine ⟨fun off hoff hok => ?_, fun off hcrash hok => ?_⟩
  · cases hname : skipName msg off with
    | crash fault => exact absurd hname (visitAllLabels_noCrash hoff fault)
    | fail e err => exact fine_of_fail (hfail off e err hname)
    | done e data => exact hfine off e data hname hok
  cases hname : skipName msg off with
  | done e data => exact hgood off e data hname hcrash hok
  | _ => exact good_of_noName (by simp [hname])

end

theorem judged_skipQuestion (msg : List UInt8) :
    Judged msg .skippedQuestion (skipQuestion msg) fun _ => none := by
  refine .of_name (fun off e err hname => ?_) (fun off e data hname hgood => ?_)
    fun off e data hname hcrash hfine => ?_
  · simp [skipQuestion, hname, andThen]
  · obtain ⟨hlt, hle, hlong⟩ := visitAllLabels_done hname
    simp only [Good, hname] at hgood
    simp only [visitAt, skipQuestion, hname, andThen, u16_of_lt hgood,
      u16_of_lt (show msg.length < 65536 by omega)]
    split_ifs with hshort
    · exact ⟨by simp, fine_unaccepted _ _ _⟩
    · exact ⟨by simp, fine_accepted (by omega) (by omega) (by simp only [extent, hname]) (by simp)⟩
  obtain ⟨hlt, hle, hlong⟩ := visitAllLabels_done hname
  simp only [Good, hname]
  by_contra hbig
  -- the wrapped sum is at most 3, so the record is accepted there
  have hwrap : u16 (e + 4) = e + 4 - 65536 := by
    unfold u16
    omega
  have hdone : skipQuestion msg off = .done (u16 (e + 4)) () := by
    simp only [skipQuestion, hname, andThen]
    rw [if_neg (by rw [u16_of_lt (by omega), hwrap]; omega)]
  have hnext := (hfine.next (u16 (e + 4)) (by simp [visitAt, hdone])).2.2
  simp only [visitAt, hdone, extent, hname] at hnext
  omega

theorem judged_skipResource (msg : List UInt8) :
    Judged msg .skippedResource (skipResource msg) fun _ => none := by
  have hstep : ∀ {off e : ℕ} {data : List UInt8}, skipName msg off = .done e data →
      ∀ n, be16 msg (u16 (e + 8)) = some n → skipResource msg off =
        if msg.length < u16 (e + 10 + n) then .fail (u16 (e + 10 + n)) .truncatedFrame
        else .done (u16 (e + 10 + n)) () := by
    intro off e data hname n hn
    obtain ⟨-, hle, hlong⟩ := visitAllLabels_done hname
    have hsum : u16 (e + u16 (n + 10)) = u16 (e + 10 + n) := by
      unfold u16
      omega
    simp only [skipResource, hname, andThen, hn, hsum, u16_of_lt (show msg.length < 65536 by omega)]
  refine .of_name (fun off e err hname => ?_) (fun off e data hname hgood => ?_)
    fun off e data hname hcrash hfine => ?_
  · simp [skipResource, hname, andThen]
  · obtain ⟨hlt, hle, hlong⟩ := visitAllLabels_done hname
    simp only [Good, hname] at hgood
    obtain ⟨n, hn⟩ := be16_isSome _ _ hgood.1
    rw [hn, getD_some] at hgood
    simp only [visitAt, hstep hname n hn]
    split_ifs with hshort
    · exact ⟨by simp, fine_unaccepted _ _ _⟩
    have hsmall := hgood.2.resolve_right hshort
    rw [u16_of_lt hsmall] at hshort ⊢
    refine ⟨by simp, fine_accepted (by omega) (by omega) ?_ (by simp)⟩
    simp only [extent, hname, hn, getD_some]
  simp only [Good, hname]
  cases hn : be16 msg (u16 (e + 8)) with
  | none =>
    refine absurd ?_ (hcrash .sliceBounds)
    simp [skipResource, hname, andThen, hn]
  | some n =>
  refine ⟨?_, ?_⟩
  · by_contra hshort
    rw [be16_none _ _ (by omega)] at hn
    cases hn
  simp only [getD_some]
  by_contra hno
  have hdone : skipResource msg off = .done (u16 (e + 10 + n)) () := by
    rw [hstep hname n hn, if_neg (by omega)]
  have hnext := (hfine.next _ (by simp [visitAt, hdone]; rfl)).2.2
  simp only [visitAt, hdone, extent, hname, hn, getD_some] at hnext
  have := u16_lt (e + 10 + n)
  omega

theorem nameDecode_done {e : ℕ} {data : List UInt8} (h : skipName msg off = .done e data) :
    nameDecode msg off = .done e (data ++ [0]) := by
  unfold skipName at h
  simp [nameDecode, h, andThen]

theorem nameDecode_crash {fault : Fault} (h : skipName msg off = .crash fault) :
    nameDecode msg off = .crash fault := by
  unfold skipName at h
  simp [nameDecode, h, andThen]

theorem nameDecode_noCrash (hoff : off ≤ msg.length) (fault : Fault) :
    nameDecode msg off ≠ .crash fault := by
  unfold nameDecode andThen
  split
  · rename_i hcrash
    exact absurd hcrash (visitAllLabels_noCrash hoff _)
  · simp
  · simp

theorem nameDecode_fail {e : ℕ} {err : DnsErr} (h : skipName msg off = .fail e err) :
    nameDecode msg off = .fail e err := by
  unfold skipName at h
  simp [nameDecode, h, andThen]

/-- Past the 16-bit range the check passes on the wrapped sum, and one of the two reads is
out of range. -/
theorem questionDecode_crash {e : ℕ} {data : List UInt8} (hname : skipName msg off = .done e data)
    (hbig : 65536 ≤ e + 4) : questionDecode msg off = .crash .sliceBounds := by
  obtain ⟨-, hle, hlong⟩ := visitAllLabels_done hname
  have hwrap : u16 (e + 4) = e + 4 - 65536 := by
    unfold u16
    omega
  simp only [questionDecode, nameDecode_done hname, andThen]
  rw [if_neg (by rw [u16_of_lt (show msg.length < 65536 by omega), hwrap]; omega)]
  by_cases hfirst : e + 2 ≤ msg.length
  · rw [u16_of_lt (show e + 2 < 65536 by omega), be16_none msg (e + 2) (by omega)]
    cases be16 msg e <;> rfl
  · rw [be16_none msg e (by omega)]

theorem judged_question (msg : List UInt8) :
    Judged msg .question (questionDecode msg) fun _ => none := by
  refine .of_name (fun off e err hname => ?_) (fun off e data hname hgood => ?_)
    fun off e data hname hcrash hfine => ?_
  · simp [questionDecode, nameDecode_fail hname, andThen]
  · obtain ⟨hlt, hle, hlong⟩ := visitAllLabels_done hname
    simp only [Good, hname] at hgood
    unfold visitAt questionDecode
    simp only [nameDecode_done hname, andThen, u16_of_lt hgood,
      u16_of_lt (show e + 2 < 65536 by omega), u16_of_lt (show msg.length < 65536 by omega)]
    by_cases hshort : msg.length < e + 4
    · simp only [if_pos hshort]
      exact ⟨by simp, fine_unaccepted _ _ _⟩
    obtain ⟨t, ht⟩ := be16_isSome msg e (by omega)
    obtain ⟨c, hc⟩ := be16_isSome msg (e + 2) (by omega)
    simp only [if_neg hshort, ht, hc]
    exact ⟨by simp, fine_accepted (by omega) (by omega) (by simp only [extent, hname]) (by simp)⟩
  simp only [Good, hname]
  by_contra hbig
  exact hcrash .sliceBounds (questionDecode_crash hname (by omega))

section
variable {e : ℕ} {data : List UInt8} (hname : skipName msg off = .done e data)
include hname

theorem headerDecode_done (hsmall : e + 10 < 65536) (hroom : e + 10 ≤ msg.length) :
    ∃ r length, be16 msg (u16 (e + 8)) = some length ∧
      headerDecode msg off = .done (e + 10) r ∧ r.length = length := by
  obtain ⟨-, hle, hlong⟩ := visitAllLabels_done hname
  obtain ⟨t, ht⟩ := be16_isSome msg e (by omega)
  obtain ⟨c, hc⟩ := be16_isSome msg (e + 2) (by omega)
  obtain ⟨ttl, httl⟩ : ∃ n, be32 msg (e + 4) = some n := ⟨_, if_pos (by omega)⟩
  obtain ⟨n, hn⟩ := be16_isSome msg (e + 8) (by omega)
  rw [u16_of_lt (show e + 8 < 65536 by omega)]
  refine ⟨{ name := data ++ [0], type := t, class_ := c, ttl := ttl, length := n, data := [] },
    n, hn, ?_, rfl⟩
  simp only [headerDecode, nameDecode_done hname, andThen, u16_of_lt hsmall,
    u16_of_lt (show msg.length < 65536 by omega), u16_of_lt (show e + 2 < 65536 by omega),
    u16_of_lt (show e + 4 < 65536 by omega), u16_of_lt (show e + 8 < 65536 by omega), ht, hc, httl,
    hn]
  rw [if_neg (by omega)]

/-- Past the 16-bit range one of the reads of a header is out of range. -/
theorem headerDecode_crash
    (hbig : 65536 ≤ e + 10) : headerDecode msg off = .crash .sliceBounds := by
  obtain ⟨-, hle, hlong⟩ := visitAllLabels_done hname
  have hwrap : u16 (e + 10) = e + 10 - 65536 := by
    unfold u16
    omega
  simp only [headerDecode, nameDecode_done hname, andThen]
  rw [if_neg (by rw [u16_of_lt (show msg.length < 65536 by omega), hwrap]; omega)]
  by_cases h1 : e + 2 ≤ msg.length
  · by_cases h2 : e + 4 ≤ msg.length
    · by_cases h3 : e + 8 ≤ msg.length
      · rw [be16_none msg (u16 (e + 8)) (by rw [u16_of_lt (show e + 8 < 65536 by omega)]; omega)]
        split
        · rename_i heq
          cases heq
        · rfl
      have hno : be32 msg (u16 (e + 4)) = none := by
        rw [u16_of_lt (show e + 4 < 65536 by omega)]
        exact if_neg (by omega)
      rw [hno]
      split
      · rename_i heq _
        cases heq
      · rfl
    · rw [be16_none msg (u16 (e + 2)) (by rw [u16_of_lt (show e + 2 < 65536 by omega)]; omega)]
      cases be16 msg e <;> rfl
  · rw [be16_none msg e (by omega)]

end

theorem headerDecode_length {e : ℕ} {r : Resource} (h : headerDecode msg off = .done e r) :
    r.length < 65536 := by
  unfold headerDecode andThen at h
  split at h
  · cases h
  · cases h
  dsimp only at h
  split_ifs at h
  split at h
  · rename_i hn
    cases h
    exact be16_lt hn
  · cases h

theorem resourceDecode_length {e : ℕ} {r : Resource} (h : resourceDecode msg off = .done e r) :
    r.length < 65536 := by
  unfold resourceDecode at h
  cases hhead : headerDecode msg off with
  | crash | fail => simp [hhead, andThen] at h
  | done e r =>
  have hlen := headerDecode_length hhead
  simp only [hhead, andThen] at h
  split_ifs at h
  · split at h
    · cases h
    · cases h
    · cases h
      exact u16_lt _
  · split at h
    · cases h
    · cases h
      exact hlen
    · cases h
      exact u16_lt _
  · cases h
    exact hlen

theorem resourceDecode_body {e : ℕ} {r : Resource} (hhead : headerDecode msg off = .done e r)
    (hlong : msg.length ≤ 65535) (hroom : e + r.length ≤ msg.length) :
    ∃ data length, resourceDecode msg off = .done (e + r.length) { r with data, length } ∧
      ((length = r.length ∧ data.length = r.length) ∨ length = u16 data.length) := by
  have hraw : ((msg.drop e).take (e + r.length - e)).length = r.length := by
    rw [length_take, length_drop]
    omega
  simp only [resourceDecode, hhead, andThen]
  rw [if_neg (by omega), u16_of_lt (show msg.length - e < 65536 by omega), if_neg (by omega),
    u16_of_lt (show e + r.length < 65536 by omega),
    if_neg (show ¬ (e + r.length < e ∨ msg.length < e + r.length) by omega)]
  by_cases htype : r.type = typeCNAME
  · rw [if_pos htype]
    cases hname : nameDecode msg e with
    | crash fault => exact absurd hname (nameDecode_noCrash (by omega) fault)
    | fail e' err => exact ⟨_, r.length, rfl, .inl ⟨rfl, hraw⟩⟩
    | done e' data => exact ⟨data, u16 data.length, rfl, .inr rfl⟩
  · rw [if_neg htype]
    exact ⟨_, r.length, rfl, .inl ⟨rfl, hraw⟩⟩

theorem judged_resource (msg : List UInt8) :
    Judged msg .resource (resourceDecode msg) fun r => some (r.length, r.data.length) := by
  refine .of_name (fun off e err hname => ?_) (fun off e data hname hgood => ?_)
    fun off e data hname hcrash hfine => ?_
  · simp [resourceDecode, headerDecode, nameDecode_fail hname, andThen]
  · obtain ⟨hlt, hle, hlong⟩ := visitAllLabels_done hname
    simp only [Good, hname] at hgood
    obtain ⟨hsmall, hshortName⟩ := hgood
    by_cases hroom : e + 10 ≤ msg.length
    · obtain ⟨r, length, hlen, hhead, rfl⟩ := headerDecode_done hname hsmall hroom
      by_cases hbody : e + 10 + r.length ≤ msg.length
      · obtain ⟨bytes, length, hdone, hkept⟩ := resourceDecode_body hhead hlong hbody
        simp only [visitAt, hdone]
        refine ⟨by simp, fine_accepted (by omega) hbody ?_ ?_⟩
        · simp only [extent, hname, hlen, getD_some]
        rintro l n hln
        cases hln
        rcases hkept with ⟨h1, h2⟩ | h1
        · exact h1.trans h2.symm
        · rw [h1, u16_of_lt (hshortName _ _ hdone)]
      have hfail : resourceDecode msg off = .fail (e + 10) .resourceLen := by
        simp only [resourceDecode, hhead, andThen]
        rw [if_neg (by omega), u16_of_lt (by omega), if_pos (by omega)]
      exact fine_of_fail hfail
    have hfail : resourceDecode msg off = .fail e .resourceLen := by
      simp only [resourceDecode, headerDecode, nameDecode_done hname, andThen]
      rw [u16_of_lt (show msg.length < 65536 by omega), u16_of_lt hsmall, if_pos (by omega)]
    exact fine_of_fail hfail
  simp only [Good, hname]
  refine ⟨?_, fun next r hdone => ?_⟩
  · by_contra hbig
    refine hcrash .sliceBounds ?_
    simp only [resourceDecode, headerDecode_crash hname (by omega), andThen]
  have hsame := hfine.stored r.length r.data.length (by simp [visitAt, hdone])
  rw [← hsame]
  exact resourceDecode_length hdone

end Records

def doneAt {α : Type} : Outcome α → Option ℕ
  | .done off _ => some off
  | _ => none

/-- Each visit starts where the one before ended; a record that was not accepted is
the last one. -/
def Linked : ℕ → List Visit → Option ℕ → Prop
  | off, [], last => last = some off
  | off, v :: vs, last => v.off = off ∧
      match v.next with
      | some next => Linked next vs last
      | none => vs = [] ∧ last = none

inductive Chain {α : Type} (decode : ℕ → Outcome α) : ℕ → List α → Prop where
  | nil (off : ℕ) : Chain decode off []
  | cons {off next : ℕ} {value : α} {rest : List α} :
      decode off = .done next value → Chain decode next rest → Chain decode off (value :: rest)

theorem Linked.append {off mid : ℕ} {vs ws : List Visit} {last : Option ℕ}
    (h : Linked off vs (some mid)) (hws : Linked mid ws last) : Linked off (vs ++ ws) last := by
  induction vs generalizing off with
  | nil =>
    cases h
    exact hws
  | cons v vs ih =>
  obtain ⟨hoff, hnext⟩ := h
  refine ⟨hoff, ?_⟩
  cases hv : v.next with
  | none => simp [hv] at hnext
  | some next =>
    simp only [hv] at hnext
    exact ih hnext

/-- A batch that did not crash, with its records fine and its end inside the message. -/
structure Kept {α : Type} (msg : List UInt8) (b : Batch α) : Prop where
  noCrash : ∀ fault, b.result ≠ .crash fault
  ends : ∀ off, doneAt b.result = some off → off ≤ msg.length
  fine : ∀ v ∈ b.visits, Fine msg v

/-- From every offset inside the message a section is kept exactly when its records
are good. -/
structure Settled {α : Type} (msg : List UInt8) (b : ℕ → Batch α) : Prop where
  kept : ∀ off ≤ msg.length, (∀ v ∈ (b off).visits, Good msg v.kind v.off) → Kept msg (b off)
  good : ∀ off, (∀ fault, (b off).result ≠ .crash fault) →
    (∀ v ∈ (b off).visits, Fine msg v) → ∀ v ∈ (b off).visits, Good msg v.kind v.off
  linked : ∀ off, Linked off (b off).visits (doneAt (b off).result)

section Sections
variable {α β : Type} {msg : List UInt8}

theorem settled_pure : Settled msg fun off => ({ result := .done off () } : Batch α) :=
  ⟨fun _ hoff _ => ⟨by simp, by rintro off' ⟨⟩; exact hoff, by simp⟩, by simp, fun _ => rfl⟩

/-- What holds of each record holds of the loop over them. -/
theorem Judged.records {kind : Kind} {decode : ℕ → Outcome α} {stored : α → Option (ℕ × ℕ)}
    (h : Judged msg kind decode stored) (n : ℕ) :
    Settled msg (DnsDecode.records kind decode stored n) := by
  induction n with
  | zero => exact settled_pure
  | succ n ih =>
  refine ⟨fun off hoff hgood => ?_, fun off hcrash hfine => ?_, fun off => ?_⟩
  · unfold DnsDecode.records at hgood ⊢
    have hone := h.fine off hoff
    unfold visitAt at hone
    cases hdec : decode off with
    | crash fault =>
      simp only [hdec] at hgood hone
      exact absurd rfl ((hone (hgood _ (mem_singleton.2 rfl))).1 fault)
    | fail next err =>
      refine ⟨by simp, by simp [doneAt], fun v hv => ?_⟩
      rw [mem_singleton.1 hv]
      exact fine_unaccepted msg kind off
    | done next value =>
    simp only [hdec] at hgood hone ⊢
    have hv := (hone (hgood _ mem_cons_self)).2
    obtain ⟨-, hnext, -⟩ := hv.next next rfl
    have hrest := ih.kept next hnext fun v hv => hgood v (mem_cons_of_mem _ hv)
    exact ⟨hrest.noCrash, hrest.ends, forall_mem_cons.2 ⟨hv, hrest.fine⟩⟩
  · unfold DnsDecode.records at hcrash hfine ⊢
    have hone := h.good off
    unfold visitAt at hone
    cases hdec : decode off with
    | crash fault =>
      simp only [hdec] at hcrash
      exact absurd rfl (hcrash fault)
    | fail next err =>
      simp only [hdec] at hone ⊢
      intro v hv
      rw [mem_singleton.1 hv]
      exact hone (by simp) (fine_unaccepted msg kind off)
    | done next value =>
    simp only [hdec] at hcrash hfine hone ⊢
    obtain ⟨hv, hrest⟩ := forall_mem_cons.1 hfine
    exact forall_mem_cons.2 ⟨hone (by simp) hv, ih.good next hcrash hrest⟩
  unfold DnsDecode.records
  cases hdec : decode off with
  | crash | fail => exact ⟨rfl, rfl, rfl⟩
  | done next value => exact ⟨rfl, ih.linked next⟩

section
variable {a : Batch α} {b : ℕ → Batch β}

theorem next_of_done {off : ℕ} (h : doneAt a.result = some off) : a.next b = b off := by
  unfold Batch.next
  unfold doneAt at h
  split <;> simp_all

theorem next_of_stopped (h : doneAt a.result = none) :
    (a.next b).visits = [] ∧ (a.next b).items = [] ∧ doneAt (a.next b).result = none ∧
      ∀ fault, (a.next b).result = .crash fault ↔ a.result = .crash fault := by
  unfold Batch.next
  split <;> simp_all [doneAt]

theorem next_crash
    (h : ∀ fault, (a.next b).result ≠ .crash fault) (fault : Fault) : a.result ≠ .crash fault := by
  intro hcrash
  exact h fault (by simp [Batch.next, hcrash])

/-- Behind a batch that was kept comes one that is kept if its records are good. -/
theorem Kept.next (ha : Kept msg a) (hb : Settled msg b)
    (hgood : ∀ v ∈ (a.next b).visits, Good msg v.kind v.off) : Kept msg (a.next b) := by
  cases hdone : doneAt a.result with
  | none =>
    obtain ⟨hvisits, -, hlast, hcrash⟩ := next_of_stopped (b := b) hdone
    exact ⟨fun fault h => ha.noCrash fault ((hcrash fault).1 h), by simp [hlast], by simp [hvisits]⟩
  | some off =>
    rw [next_of_done hdone] at hgood ⊢
    exact hb.kept off (ha.ends off hdone) hgood

theorem good_next (hb : Settled msg b) (hcrash : ∀ fault, (a.next b).result ≠ .crash fault)
    (hfine : ∀ v ∈ (a.next b).visits, Fine msg v) :
    ∀ v ∈ (a.next b).visits, Good msg v.kind v.off := by
  cases hdone : doneAt a.result with
  | none => simp [(next_of_stopped (b := b) hdone).1]
  | some off =>
    rw [next_of_done hdone] at hcrash hfine ⊢
    exact hb.good off hcrash hfine

theorem Linked.next {off : ℕ} {vs : List Visit} (ha : Linked off vs (doneAt a.result))
    (hb : Settled msg b) : Linked off (vs ++ (a.next b).visits) (doneAt (a.next b).result) := by
  cases hdone : doneAt a.result with
  | none =>
    obtain ⟨hvisits, -, hlast, -⟩ := next_of_stopped (b := b) hdone
    rw [hvisits, append_nil, hlast, ← hdone]
    exact ha
  | some mid =>
  rw [next_of_done hdone]
  rw [hdone] at ha
  exact ha.append (hb.linked mid)

end

theorem Settled.thenSkip {a : ℕ → Batch α} {b : ℕ → Batch Unit} (ha : Settled msg a)
    (hb : Settled msg b) : Settled msg fun off => (a off).thenSkip b := by
  refine ⟨fun off hoff hgood => ?_, fun off hcrash hfine => ?_, fun off => ?_⟩
  · obtain ⟨h1, h2⟩ := forall_mem_append.1 hgood
    have hka := ha.kept off hoff h1
    have hkb := hka.next hb h2
    exact ⟨hkb.noCrash, hkb.ends, forall_mem_append.2 ⟨hka.fine, hkb.fine⟩⟩
  · obtain ⟨h1, h2⟩ := forall_mem_append.1 hfine
    exact forall_mem_append.2 ⟨ha.good off (next_crash (b := b) hcrash) h1, good_next hb hcrash h2⟩
  · exact (ha.linked off).next hb

theorem chain_records {kind : Kind} {decode : ℕ → Outcome α} {stored : α → Option (ℕ × ℕ)}
    (n off : ℕ) : Chain decode off (records kind decode stored n off).items := by
  induction n generalizing off with
  | zero => exact .nil off
  | succ n ih =>
  unfold records
  cases hdec : decode off with
  | crash | fail => exact .nil off
  | done next value => exact .cons hdec (ih next)

end Sections

theorem settled_questions (q : Option ℕ) (msg : List UInt8) (qd : ℕ) :
    Settled msg (decodeQuestions q msg qd) :=
  ((judged_question msg).records _).thenSkip ((judged_skipQuestion msg).records _)

theorem settled_resources (dst : Option ℕ) (msg : List UInt8) (n : ℕ) :
    Settled msg (decodeToCapResources dst msg n) := by
  cases dst with
  | none => exact settled_pure
  | some cap =>
    exact ((judged_resource msg).records _).thenSkip ((judged_skipResource msg).records _)

/-- The resources of a section are decoded in full, wherever the section starts. -/
theorem chain_resources {α : Type} (a : Batch α) (dst : Option ℕ) (msg : List UInt8) (n : ℕ) :
    ∃ off, Chain (resourceDecode msg) off (a.next (decodeToCapResources dst msg n)).items := by
  cases hdone : doneAt a.result with
  | none =>
    rw [(next_of_stopped hdone).2.1]
    exact ⟨0, .nil 0⟩
  | some off =>
  rw [next_of_done hdone]
  cases dst with
  | none => exact ⟨off, .nil off⟩
  | some cap => exact ⟨off, chain_records _ _⟩

theorem doneAt_andThen_done {α β : Type} (r : Outcome α) (value : β) :
    doneAt (r.andThen fun off _ => .done off value) = doneAt r := by
  cases r <;> rfl

theorem andThen_done_crash {α β : Type} {r : Outcome α} {value : β} {fault : Fault}
    (h : (r.andThen fun off _ => .done off value) = .crash fault) : r = .crash fault := by
  cases r <;> simp_all [andThen]

/-- Decoding returns, with an offset inside the message if there is no error; each
record starts where the one before ended and ends further on where its fields say; the
destinations hold records decoded in full. -/
structure DecodeSound (msg : List UInt8) (d : Decoded) : Prop where
  returns : ∀ fault, d.result ≠ .crash fault
  ends : ∀ off complete, d.result = .done off complete → off ≤ msg.length
  linked : sizeHeader ≤ msg.length → Linked sizeHeader d.visits (doneAt d.result)
  fine : ∀ v ∈ d.visits, Fine msg v
  questions : ∀ qs, d.q = some qs → ∃ off, Chain (questionDecode msg) off qs
  resources : ∀ rs, d.answers = some rs ∨ d.authorities = some rs ∨ d.additionals = some rs →
    ∃ off, Chain (resourceDecode msg) off rs

/-- The verdict on the records of the four sections is the verdict on the message. -/
theorem decode_sound_iff (q answers authorities additionals : Option ℕ) (msg : List UInt8) :
    DecodeSound msg (decodeMessage q answers authorities additionals msg) ↔
      ∀ v ∈ (decodeMessage q answers authorities additionals msg).visits,
        Good msg v.kind v.off := by
  by_cases hshort : msg.length < sizeHeader
  · rw [decodeMessage, if_pos hshort]
    refine ⟨by simp, fun _ => ⟨by simp, by simp, by omega, by simp, ?_, ?_⟩⟩
    · rintro qs hqs
      obtain ⟨-, -, rfl⟩ := map_eq_some_iff.1 hqs
      exact ⟨0, .nil 0⟩
    rintro rs (hrs | hrs | hrs) <;>
    · obtain ⟨-, -, rfl⟩ := map_eq_some_iff.1 hrs
      exact ⟨0, .nil 0⟩
  rw [decodeMessage, if_neg hshort]
  dsimp only
  have hq := settled_questions q msg ((be16 msg 4).getD 0)
  have han := settled_resources answers msg ((be16 msg 6).getD 0)
  have hns := settled_resources authorities msg ((be16 msg 8).getD 0)
  have har := settled_resources additionals msg ((be16 msg 10).getD 0)
  have hchain : ∃ off, Chain (questionDecode msg) off
      (decodeQuestions q msg ((be16 msg 4).getD 0) sizeHeader).items :=
    ⟨sizeHeader, chain_records _ _⟩
  set qs := decodeQuestions q msg ((be16 msg 4).getD 0) sizeHeader
  set a := qs.next (decodeToCapResources answers msg ((be16 msg 6).getD 0))
  set b := a.next (decodeToCapResources authorities msg ((be16 msg 8).getD 0))
  set c := b.next (decodeToCapResources additionals msg ((be16 msg 10).getD 0))
  simp only [forall_mem_append]
  constructor
  · intro h
    have hcrash : ∀ fault, c.result ≠ .crash fault := fun fault hfault =>
      h.returns fault (by simp only [hfault, andThen])
    have hfine := h.fine
    simp only [forall_mem_append] at hfine
    obtain ⟨⟨⟨hfq, hfa⟩, hfb⟩, hfc⟩ := hfine
    refine ⟨⟨⟨hq.good _ (next_crash (next_crash (next_crash hcrash))) hfq, ?_⟩, ?_⟩, ?_⟩
    · exact good_next han (next_crash (next_crash hcrash)) hfa
    · exact good_next hns (next_crash hcrash) hfb
    · exact good_next har hcrash hfc
  rintro ⟨⟨⟨hgq, hga⟩, hgb⟩, hgc⟩
  have kq := hq.kept sizeHeader (by omega) hgq
  have ka := kq.next han hga
  have kb := ka.next hns hgb
  have kc := kb.next har hgc
  refine ⟨fun fault h => ?_, fun off ok h => ?_, fun _ => ?_, ?_, ?_, ?_⟩
  · exact kc.noCrash fault (andThen_done_crash h)
  · exact kc.ends off (by rw [← doneAt_andThen_done]; exact congrArg doneAt h)
  · rw [doneAt_andThen_done]
    exact (((hq.linked sizeHeader).next han).next hns).next har
  · simp only [forall_mem_append]
    exact ⟨⟨⟨kq.fine, ka.fine⟩, kb.fine⟩, kc.fine⟩
  · rintro l hl
    obtain ⟨-, -, rfl⟩ := map_eq_some_iff.1 hl
    exact hchain
  rintro l (hl | hl | hl)
  all_goals
    obtain ⟨-, -, rfl⟩ := map_eq_some_iff.1 hl
    exact chain_resources _ _ _ _

def cutAnswer : List UInt8 := [0, 0, 0, 0, 0, 0, 0, 1, 0, 0, 0, 0, 0]

/-- Of two announced answers the first has 65525 bytes of data: with the 11 bytes before
them it ends 65536 bytes on, where it starts. -/
def wrappedAnswer : List UInt8 :=
  [0, 0, 0, 0, 0, 0, 0, 2, 0, 0, 0, 0, 0, 0, 1, 0, 1, 0, 0, 0, 0, 0xff, 0xf5]

theorem skip_leaves_message :
    (decodeMessage none (some 0) none none cutAnswer).result = .crash .sliceBounds ∧
    (decodeMessage none (some 0) none none wrappedAnswer).result = .done 12 false ∧
    (decodeMessage none (some 0) none none wrappedAnswer).visits =
      [{ kind := .skippedResource, off := 12, next := some 12 },
        { kind := .skippedResource, off := 12, next := some 12 }] ∧
    ¬ DecodeSound cutAnswer (decodeMessage none (some 0) none none cutAnswer) ∧
    ¬ DecodeSound wrappedAnswer (decodeMessage none (some 0) none none wrappedAnswer) := by
  have hcut : (decodeMessage none (some 0) none none cutAnswer).result = .crash .sliceBounds := by
    decide +kernel
  have hvisits : (decodeMessage none (some 0) none none wrappedAnswer).visits =
      [{ kind := .skippedResource, off := 12, next := some 12 },
        { kind := .skippedResource, off := 12, next := some 12 }] := by
    decide +kernel
  refine ⟨hcut, by decide +kernel, hvisits, fun h => h.returns _ hcut, fun h => ?_⟩
  have hfine := h.fine _ (by rw [hvisits]; exact mem_cons_self)
  exact absurd (hfine.next 12 rfl).1 (by decide)

end Lneto.DnsDecode
