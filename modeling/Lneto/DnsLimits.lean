import Lneto.DnsDecode

/-!
Decoding with limited destinations. A section is read up to the capacity of its
destination and skipped from there on. What comes out is a cut of the unlimited
decoding exactly when no section with records has a nil destination and no
capacity loses its upper bits.
-/
namespace Lneto.DnsLimits

open DnsNames DnsDecode List Option Outcome

inductive Reads {α : Type} (decode : ℕ → Outcome α) : ℕ → List α → ℕ → Prop where
  | nil (off : ℕ) : Reads decode off [] off
  | cons {off next last : ℕ} {value : α} {rest : List α} (h : decode off = .done next value)
      (hrest : Reads decode next rest last) : Reads decode off (value :: rest) last

section Reading
variable {α β : Type} {decode : ℕ → Outcome α} {off last : ℕ} {xs ys : List α}

theorem reads_append (h : Reads decode off (xs ++ ys) last) :
    ∃ mid, Reads decode off xs mid ∧ Reads decode mid ys last := by
  induction xs generalizing off with
  | nil => exact ⟨off, .nil off, h⟩
  | cons x xs ih =>
  cases h with
  | cons hx hrest =>
    obtain ⟨mid, h1, h2⟩ := ih hrest
    exact ⟨mid, .cons hx h1, h2⟩

theorem Reads.append {mid : ℕ} (h : Reads decode off xs mid) (h' : Reads decode mid ys last) :
    Reads decode off (xs ++ ys) last := by
  induction h with
  | nil => exact h'
  | cons hx _ ih => exact .cons hx (ih h')

theorem Reads.map {decode' : ℕ → Outcome β} (f : α → β)
    (hstep : ∀ off next value, decode off = .done next value → decode' off = .done next (f value))
    (h : Reads decode off xs last) : Reads decode' off (xs.map f) last := by
  induction h with
  | nil => exact .nil _
  | cons hx _ ih => exact .cons (hstep _ _ _ hx) ih

theorem Reads.lt (hstep : ∀ off next value, decode off = .done next value → off < next)
    (h : Reads decode off xs last) : off + xs.length ≤ last := by
  induction h with
  | nil => simp
  | cons hx _ ih =>
  have := hstep _ _ _ hx
  simp only [length_cons]
  omega

theorem records_of_reads (kind : Kind) (stored : α → Option (ℕ × ℕ))
    (h : Reads decode off xs last) : (records kind decode stored xs.length off).items = xs ∧
    (records kind decode stored xs.length off).result = .done last () := by
  induction h with
  | nil => exact ⟨rfl, rfl⟩
  | cons hx _ ih =>
    simp only [length_cons, records, hx]
    exact ⟨by rw [ih.1], ih.2⟩

theorem reads_of_records {kind : Kind} {stored : α → Option (ℕ × ℕ)} {n : ℕ}
    (h : (records kind decode stored n off).result = .done last ()) :
    Reads decode off (records kind decode stored n off).items last ∧
    (records kind decode stored n off).items.length = n := by
  induction n generalizing off with
  | zero =>
    cases h
    exact ⟨.nil _, rfl⟩
  | succ n ih =>
  unfold records at h ⊢
  cases hdec : decode off with
  | crash | fail => simp [hdec] at h
  | done next value =>
  simp only [hdec] at h ⊢
  obtain ⟨hreads, hlen⟩ := ih h
  exact ⟨.cons hdec hreads, by simp [hlen]⟩

theorem thenSkip_of_reads {skip : ℕ → Outcome Unit} (kind kind' : Kind)
    (stored : α → Option (ℕ × ℕ)) (n : ℕ)
    (hskip : ∀ off next value, decode off = .done next value → skip off = .done next ())
    (h : Reads decode off xs last) (hn : n ≤ xs.length) :
    ((records kind decode stored n off).thenSkip
      (records kind' skip (fun _ => none) (xs.length - n))).items = xs.take n ∧
    ((records kind decode stored n off).thenSkip
      (records kind' skip (fun _ => none) (xs.length - n))).result = .done last () := by
  rw [← take_append_drop n xs] at h
  obtain ⟨mid, h1, h2⟩ := reads_append h
  have hfirst := records_of_reads kind stored h1
  have hrest := records_of_reads kind' (fun _ => none) (h2.map (fun _ => ()) hskip)
  rw [length_take, min_eq_left hn] at hfirst
  rw [length_map, length_drop] at hrest
  have hdone : doneAt (records kind decode stored n off).result = some mid := by
    rw [hfirst.2]
    rfl
  unfold Batch.thenSkip
  rw [next_of_done hdone]
  exact ⟨hfirst.1, hrest.2⟩

end Reading

section Skipping
variable {msg : List UInt8} {off next : ℕ}

section
variable {value : Question} (h : questionDecode msg off = .done next value)
include h

theorem questionDecode_end :
    ∃ e data, skipName msg off = .done e data ∧ e + 4 ≤ msg.length ∧ next = e + 4 := by
  cases hname : skipName msg off with
  | crash fault => simp [questionDecode, nameDecode_crash hname, andThen] at h
  | fail e err => simp [questionDecode, nameDecode_fail hname, andThen] at h
  | done e data =>
  obtain ⟨-, -, hlong⟩ := visitAllLabels_done hname
  have hsmall : e + 4 < 65536 := by
    by_contra hbig
    rw [questionDecode_crash hname (by omega)] at h
    cases h
  simp only [questionDecode, nameDecode_done hname, andThen, u16_of_lt hsmall,
    u16_of_lt (show msg.length < 65536 by omega)] at h
  split_ifs at h with hshort
  split at h
  · cases h
    exact ⟨e, data, rfl, by omega, rfl⟩
  · cases h

theorem questionDecode_skip : skipQuestion msg off = .done next () := by
  obtain ⟨e, data, hname, hroom, rfl⟩ := questionDecode_end h
  obtain ⟨-, -, hlong⟩ := visitAllLabels_done hname
  simp only [skipQuestion, hname, andThen, u16_of_lt (show e + 4 < 65536 by omega),
    u16_of_lt (show msg.length < 65536 by omega)]
  rw [if_neg (by omega)]

end

section
variable {value : Resource} (h : resourceDecode msg off = .done next value)
include h

theorem resourceDecode_end :
    ∃ e data n, skipName msg off = .done e data ∧ be16 msg (e + 8) = some n ∧
      e + 10 + n ≤ msg.length ∧ next = e + 10 + n := by
  cases hname : skipName msg off with
  | crash fault =>
    simp [resourceDecode, headerDecode, nameDecode_crash hname, andThen] at h
  | fail e err => simp [resourceDecode, headerDecode, nameDecode_fail hname, andThen] at h
  | done e data =>
  obtain ⟨-, -, hlong⟩ := visitAllLabels_done hname
  have hsmall : e + 10 < 65536 := by
    by_contra hbig
    simp [resourceDecode, headerDecode_crash hname (by omega), andThen] at h
  have hroom : e + 10 ≤ msg.length := by
    by_contra hshort
    have hfail : headerDecode msg off = .fail e .resourceLen := by
      simp only [headerDecode, nameDecode_done hname, andThen]
      rw [u16_of_lt hsmall, u16_of_lt (by omega), if_pos (by omega)]
    simp [resourceDecode, hfail, andThen] at h
  obtain ⟨r, n, hn, hhead, rfl⟩ := headerDecode_done hname hsmall hroom
  rw [u16_of_lt (show e + 8 < 65536 by omega)] at hn
  have hbody : e + 10 + r.length ≤ msg.length := by
    by_contra hshort
    simp only [resourceDecode, hhead, andThen] at h
    rw [if_neg (by omega), u16_of_lt (by omega), if_pos (by omega)] at h
    cases h
  obtain ⟨_, _, hdone, -⟩ := resourceDecode_body hhead hlong hbody
  rw [hdone] at h
  cases h
  exact ⟨e, data, r.length, rfl, hn, hbody, rfl⟩

theorem resourceDecode_skip : skipResource msg off = .done next () := by
  obtain ⟨e, data, n, hname, hn, hroom, rfl⟩ := resourceDecode_end h
  obtain ⟨-, -, hlong⟩ := visitAllLabels_done hname
  have hsum : u16 (e + u16 (n + 10)) = e + 10 + n := by
    unfold u16
    omega
  simp only [skipResource, hname, andThen, u16_of_lt (show e + 8 < 65536 by omega), hn, hsum,
    u16_of_lt (show msg.length < 65536 by omega)]
  rw [if_neg (by omega)]

theorem resourceDecode_lt : off < next := by
  obtain ⟨e, data, n, hname, -, -, rfl⟩ := resourceDecode_end h
  have := (visitAllLabels_done hname).1
  omega

end

end Skipping

section Sections
variable {msg : List UInt8} {off last : ℕ}

theorem decodeQuestions_of_reads {qs : List Question} (q : Option ℕ)
    (h : Reads (questionDecode msg) off qs last) :
    (decodeQuestions q msg qs.length off).items = qs.take (q.getD 0) ∧
    (decodeQuestions q msg qs.length off).result = .done last () := by
  have hskip : ∀ off next value, questionDecode msg off = .done next value →
      skipQuestion msg off = .done next () := fun _ _ _ => questionDecode_skip
  cases q with
  | none => exact thenSkip_of_reads .question .skippedQuestion _ 0 hskip h (Nat.zero_le _)
  | some cap =>
  by_cases hcap : cap < qs.length
  · simp only [decodeQuestions, if_pos hcap]
    exact thenSkip_of_reads .question .skippedQuestion _ cap hskip h hcap.le
  simp only [decodeQuestions, if_neg hcap]
  rw [getD_some, take_of_length_le (by omega)]
  have hall := thenSkip_of_reads .question .skippedQuestion (fun _ => none) _ hskip h le_rfl
  rwa [take_length] at hall

/-- A section of k resources in front of others. Without a destination the section does
not move at all. -/
theorem decodeToCapResources_of_reads {rest : List Resource} (dst : Option ℕ) {k : ℕ}
    (hk : k ≤ rest.length) (h : Reads (resourceDecode msg) off rest last) :
    ∃ mid, (decodeToCapResources dst msg k off).result = .done mid () ∧
      Reads (resourceDecode msg) mid (rest.drop (if dst.isSome then k else 0)) last ∧
      (decodeToCapResources dst msg k off).items = (rest.take k).take (u16 (dst.getD 0)) := by
  have hskip : ∀ off next value, resourceDecode msg off = .done next value →
      skipResource msg off = .done next () := fun _ _ _ => resourceDecode_skip
  cases dst with
  | none => exact ⟨off, rfl, h, by simp [decodeToCapResources, u16]⟩
  | some cap =>
  rw [← take_append_drop k rest] at h
  obtain ⟨mid, h1, h2⟩ := reads_append h
  have hlen : (rest.take k).length = k := by rw [length_take, min_eq_left hk]
  refine ⟨mid, ?_⟩
  by_cases hcap : u16 cap < k
  · have hcut := thenSkip_of_reads .resource .skippedResource
      (fun r => some (r.length, r.data.length)) (u16 cap) hskip h1 (by omega)
    rw [hlen] at hcut
    simp only [decodeToCapResources, if_pos hcap]
    exact ⟨hcut.2, h2, hcut.1⟩
  have hcut := thenSkip_of_reads .resource .skippedResource
    (fun r => some (r.length, r.data.length)) k hskip h1 hlen.ge
  rw [hlen] at hcut
  simp only [decodeToCapResources, if_neg hcap, getD_some]
  have htake : (rest.take k).take (u16 cap) = rest.take k := take_of_length_le (by omega)
  refine ⟨hcut.2, h2, hcut.1.trans ?_⟩
  rw [htake, take_take, min_self]

theorem thenSkip_zero {α : Type} (a : Batch α) (kind : Kind) (skip : ℕ → Outcome Unit)
    (stored : Unit → Option (ℕ × ℕ)) :
    (a.thenSkip (records kind skip stored 0)).result = a.result := by
  unfold Batch.thenSkip Batch.next
  cases a.result <;> rfl

theorem next_done {α β : Type} {a : Batch α} {b : ℕ → Batch β}
    (h : (a.next b).result = .done last ()) :
    ∃ mid, a.result = .done mid () ∧ a.next b = b mid ∧ (b mid).result = .done last () := by
  unfold Batch.next at h ⊢
  cases ha : a.result with
  | crash | fail => simp [ha] at h
  | done mid value =>
    simp only [ha] at h ⊢
    exact ⟨mid, rfl, rfl, h⟩

theorem andThen_flag_done {r : Outcome Unit} {flag flag' : Bool}
    (h : (r.andThen fun off _ => .done off flag) = .done last flag') : r = .done last () := by
  cases r with
  | crash | fail => cases h
  | done e value =>
    cases h
    rfl

end Sections

/-- No section holds more records than its 16-bit count can say. -/
def unlimited (msg : List UInt8) : Decoded :=
  decodeMessage (some 65535) (some 65535) (some 65535) (some 65535) msg

/-- The records of the four sections of a message, and where the last one ends. -/
structure Sections (msg : List UInt8) (qs : List Question) (an ns ar : List Resource) (last : ℕ) :
    Prop where
  header : sizeHeader ≤ msg.length
  qdCount : (be16 msg 4).getD 0 = qs.length
  anCount : (be16 msg 6).getD 0 = an.length
  nsCount : (be16 msg 8).getD 0 = ns.length
  arCount : (be16 msg 10).getD 0 = ar.length
  reads : ∃ mid, Reads (questionDecode msg) sizeHeader qs mid ∧
    Reads (resourceDecode msg) mid (an ++ ns ++ ar) last

theorem count_lt (msg : List UInt8) (i : ℕ) : (be16 msg i).getD 0 < 65536 := by
  cases h : be16 msg i with
  | none => simp
  | some n => exact be16_lt h

theorem unlimited_questions {msg : List UInt8} {n off last : ℕ} (hn : n < 65536)
    (h : (decodeQuestions (some 65535) msg n off).result = .done last ()) :
    Reads (questionDecode msg) off (decodeQuestions (some 65535) msg n off).items last ∧
    (decodeQuestions (some 65535) msg n off).items.length = n := by
  simp only [decodeQuestions, if_neg (show ¬ 65535 < n by omega), Nat.sub_self] at h ⊢
  unfold skipQuestions at h
  rw [thenSkip_zero] at h
  exact reads_of_records h

theorem unlimited_resources {msg : List UInt8} {n off last : ℕ} (hn : n < 65536)
    (h : (decodeToCapResources (some 65535) msg n off).result = .done last ()) :
    Reads (resourceDecode msg) off (decodeToCapResources (some 65535) msg n off).items last ∧
    (decodeToCapResources (some 65535) msg n off).items.length = n := by
  simp only [decodeToCapResources, u16_of_lt (show 65535 < 65536 by omega),
    if_neg (show ¬ 65535 < n by omega), Nat.sub_self] at h ⊢
  unfold skipResources at h
  rw [thenSkip_zero] at h
  exact reads_of_records h

theorem sections_of_unlimited {msg : List UInt8} {last : ℕ} {complete : Bool}
    (h : (unlimited msg).result = .done last complete) :
    ∃ qs an ns ar, Sections msg qs an ns ar last ∧ (unlimited msg).q = some qs ∧
      (unlimited msg).answers = some an ∧ (unlimited msg).authorities = some ns ∧
      (unlimited msg).additionals = some ar := by
  unfold unlimited at h ⊢
  by_cases hshort : msg.length < sizeHeader
  · rw [decodeMessage, if_pos hshort] at h
    cases h
  rw [decodeMessage, if_neg hshort] at h ⊢
  dsimp only at h ⊢
  have har := andThen_flag_done h
  obtain ⟨o3, hns, heq3, har⟩ := next_done har
  obtain ⟨o2, han, heq2, hns⟩ := next_done hns
  obtain ⟨o1, hqs, heq1, han⟩ := next_done han
  obtain ⟨rq, lq⟩ := unlimited_questions (count_lt msg 4) hqs
  obtain ⟨ra, la⟩ := unlimited_resources (count_lt msg 6) han
  obtain ⟨rn, ln⟩ := unlimited_resources (count_lt msg 8) hns
  obtain ⟨rr, lr⟩ := unlimited_resources (count_lt msg 10) har
  rw [heq1] at heq2 heq3 ⊢
  rw [heq2] at heq3 ⊢
  rw [heq3]
  exact ⟨_, _, _, _, ⟨not_lt.1 hshort, lq.symm, la.symm, ln.symm, lr.symm, o1, rq,
    (ra.append rn).append rr⟩, rfl, rfl, rfl, rfl⟩

/-- The first records of a section, as many as its destination holds. -/
def cut {α : Type} (dst : Option ℕ) (records : Option (List α)) : Option (List α) :=
  dst.bind fun cap => records.map fun xs => xs.take cap

def fits {α : Type} (dst : Option ℕ) (records : Option (List α)) : Bool :=
  (records.getD []).length ≤ dst.getD 0

/-- What a decoding with limits owes to the decoding without. -/
structure CutOf (full : Decoded) (q answers authorities additionals : Option ℕ) (d : Decoded) :
    Prop where
  cutQuestions : d.q = cut q full.q
  cutAnswers : d.answers = cut answers full.answers
  cutAuthorities : d.authorities = cut authorities full.authorities
  cutAdditionals : d.additionals = cut additionals full.additionals
  result : ∀ off complete, full.result = .done off complete → d.result = .done off
    (fits q full.q && fits answers full.answers && fits authorities full.authorities &&
      fits additionals full.additionals)

/-- A destination for resources that keeps its place: not nil in front of records, and of
a capacity whose lower 16 bits hold as many. -/
def Holds (dst : Option ℕ) (records : Option (List Resource)) : Prop :=
  match dst with
  | none => records.getD [] = []
  | some cap => cap < 65536 ∨ (records.getD []).length ≤ u16 cap

instance (dst : Option ℕ) (records : Option (List Resource)) : Decidable (Holds dst records) :=
  match dst with
  | none => inferInstanceAs (Decidable (_ = _))
  | some _ => inferInstanceAs (Decidable (_ ∨ _))

section Cutting
variable {msg : List UInt8} {qs : List Question} {an ns ar : List Resource} {last : ℕ}

/-- What the sections come to with limited destinations. In place of the nil ones among
the resources the records before them are read. -/
theorem decodeMessage_of_sections (h : Sections msg qs an ns ar last)
    (q answers authorities additionals : Option ℕ) : ∃ rest₁ rest₂ rest₃ off,
      rest₁ = (an ++ ns ++ ar).drop (if answers.isSome then an.length else 0) ∧
      rest₂ = rest₁.drop (if authorities.isSome then ns.length else 0) ∧
      rest₃ = rest₂.drop (if additionals.isSome then ar.length else 0) ∧
      Reads (resourceDecode msg) off rest₃ last ∧
      (decodeMessage q answers authorities additionals msg).q = q.map (fun cap => qs.take cap) ∧
      (decodeMessage q answers authorities additionals msg).answers =
        answers.map (fun cap => an.take (u16 cap)) ∧
      (decodeMessage q answers authorities additionals msg).authorities =
        authorities.map (fun cap => (rest₁.take ns.length).take (u16 cap)) ∧
      (decodeMessage q answers authorities additionals msg).additionals =
        additionals.map (fun cap => (rest₂.take ar.length).take (u16 cap)) ∧
      (decodeMessage q answers authorities additionals msg).result =
        .done off (decide (qs.length ≤ q.getD 0 ∧ an.length ≤ answers.getD 0 ∧
          ns.length ≤ authorities.getD 0 ∧ ar.length ≤ additionals.getD 0)) := by
  obtain ⟨o1, hq, hr⟩ := h.reads
  have hqs := decodeQuestions_of_reads q hq
  obtain ⟨o2, h2, hr2, hi2⟩ := decodeToCapResources_of_reads answers (k := an.length) (by simp) hr
  obtain ⟨o3, h3, hr3, hi3⟩ := decodeToCapResources_of_reads authorities (k := ns.length)
    (by simp only [length_drop, length_append]; split_ifs <;> omega) hr2
  obtain ⟨o4, h4, hr4, hi4⟩ := decodeToCapResources_of_reads additionals (k := ar.length)
    (by simp only [length_drop, length_append]; split_ifs <;> omega) hr3
  rw [append_assoc, take_left] at hi2
  refine ⟨_, _, _, o4, rfl, rfl, rfl, hr4, ?_⟩
  have hn1 : ∀ b : ℕ → Batch Resource, (decodeQuestions q msg qs.length sizeHeader).next b = b o1 :=
    fun b => next_of_done (by rw [hqs.2]; rfl)
  have hn2 : ∀ b : ℕ → Batch Resource,
      (decodeToCapResources answers msg an.length o1).next b = b o2 :=
    fun b => next_of_done (by rw [h2]; rfl)
  have hn3 : ∀ b : ℕ → Batch Resource,
      (decodeToCapResources authorities msg ns.length o2).next b = b o3 :=
    fun b => next_of_done (by rw [h3]; rfl)
  simp only [decodeMessage, if_neg (not_lt.2 h.header), h.qdCount, h.anCount, h.nsCount, h.arCount,
    hn1, hn2, hn3, h4, hqs.1, hi2, hi3, hi4]
  refine ⟨?_, ?_, ?_, ?_, rfl⟩
  · cases q <;> rfl
  · cases answers <;> rfl
  · cases authorities <;> rfl
  · cases additionals <;> rfl

theorem take_u16_iff {rs : List Resource} (cap : ℕ) :
    rs.take (u16 cap) = rs.take cap ↔ cap < 65536 ∨ rs.length ≤ u16 cap := by
  have hle : u16 cap ≤ cap := Nat.mod_le _ _
  constructor
  · intro heq
    by_contra hno
    have hlen := congrArg length heq
    rw [length_take, length_take] at hlen
    have := u16_lt cap
    omega
  rintro (hsmall | hall)
  · rw [u16_of_lt hsmall]
  · rw [take_of_length_le hall, take_of_length_le (by omega)]

theorem cut_iff {rs : List Resource} (dst : Option ℕ) (hnil : dst = none → rs = []) :
    (dst.map fun cap => rs.take (u16 cap)) = cut dst (some rs) ↔ Holds dst (some rs) := by
  cases dst with
  | none => simp [cut, Holds, hnil rfl]
  | some cap =>
    simp only [cut, Holds, map_some, bind_some, some.injEq, getD_some]
    exact take_u16_iff cap

theorem leftover (an ns ar : List Resource) (answers authorities additionals : Bool)
    (h : ((((an ++ ns ++ ar).drop (if answers then an.length else 0)).drop
      (if authorities then ns.length else 0)).drop (if additionals then ar.length else 0)) = []) :
    (answers = false → an = []) ∧ (authorities = false → ns = []) ∧
      (additionals = false → ar = []) := by
  have hlen := congrArg length h
  simp only [length_drop, length_append, length_nil] at hlen
  cases answers <;> cases authorities <;> cases additionals <;>
    simp only [if_true, Bool.false_eq_true, if_false] at hlen <;>
    refine ⟨fun hb => ?_, fun hb => ?_, fun hb => ?_⟩ <;>
    first | exact eq_nil_of_length_eq_zero (by omega) | cases hb

end Cutting

/-- Limits on a message that decodes completely: the destinations hold the first records
of their sections, and end and flag are right, exactly when every destination for
resources keeps its place. -/
theorem limits_cut_iff (msg : List UInt8) (last : ℕ) (complete : Bool)
    (hfull : (unlimited msg).result = .done last complete)
    (q answers authorities additionals : Option ℕ) :
    CutOf (unlimited msg) q answers authorities additionals
        (decodeMessage q answers authorities additionals msg) ↔
      Holds answers (unlimited msg).answers ∧ Holds authorities (unlimited msg).authorities ∧
        Holds additionals (unlimited msg).additionals := by
  obtain ⟨qs, an, ns, ar, hsec, hq, han, hns, har⟩ := sections_of_unlimited hfull
  obtain ⟨rest₁, rest₂, rest₃, off, h1, h2, h3, hreads, dq, dan, dns, dar, dres⟩ :=
    decodeMessage_of_sections hsec q answers authorities additionals
  have hcutq : (q.map fun cap => qs.take cap) = cut q (some qs) := by cases q <;> rfl
  -- without leftovers the later sections start where they should
  have hplace : (answers = none → an = []) → (authorities = none → ns = []) →
      rest₁.take ns.length = ns ∧ rest₂.take ar.length = ar := by
    intro hna hnn
    have hr1 : rest₁ = ns ++ ar := by
      rw [h1]
      cases answers with
      | none => simp [hna rfl]
      | some cap => simp [append_assoc]
    have hr2 : rest₂ = ar := by
      rw [h2, hr1]
      cases authorities with
      | none => simp [hnn rfl]
      | some cap => simp
    rw [hr1, hr2]
    exact ⟨take_left, take_length⟩
  rw [han, hns, har]
  constructor
  · rintro ⟨-, ca, cn, cr, hres⟩
    rw [han, dan] at ca
    rw [hns, dns] at cn
    rw [har, dar] at cr
    have hoff : off = last := (done.inj (dres.symm.trans (hres _ _ hfull))).1
    have hempty : rest₃ = [] := by
      have hlt := hreads.lt (fun _ _ _ => resourceDecode_lt)
      exact length_eq_zero_iff.1 (by omega)
    rw [h3, h2, h1] at hempty
    obtain ⟨n1, n2, n3⟩ := leftover an ns ar _ _ _ hempty
    simp only [isSome_eq_false_iff, isNone_iff_eq_none] at n1 n2 n3
    obtain ⟨p1, p2⟩ := hplace n1 n2
    rw [p1] at cn
    rw [p2] at cr
    exact ⟨(cut_iff answers n1).1 ca, (cut_iff authorities n2).1 cn, (cut_iff additionals n3).1 cr⟩
  rintro ⟨ca, cn, cr⟩
  have n1 : answers = none → an = [] := by rintro rfl; exact ca
  have n2 : authorities = none → ns = [] := by rintro rfl; exact cn
  have n3 : additionals = none → ar = [] := by rintro rfl; exact cr
  obtain ⟨p1, p2⟩ := hplace n1 n2
  rw [p1] at dns
  rw [p2] at dar
  refine ⟨?_, ?_, ?_, ?_, fun o c ho => ?_⟩
  · rw [dq, hq, hcutq]
  · rw [dan, han, (cut_iff answers n1).2 ca]
  · rw [dns, hns, (cut_iff authorities n2).2 cn]
  · rw [dar, har, (cut_iff additionals n3).2 cr]
  have hend : rest₃ = [] := by
    rw [h3, h2, h1]
    cases answers <;> cases authorities <;> cases additionals <;> simp_all
  rw [hend] at hreads
  cases hreads
  rw [hfull] at ho
  cases ho
  rw [dres, hq, han, hns, har]
  congr 1
  simp [fits, Bool.and_assoc]

def twoAnswers : List UInt8 :=
  [0, 0, 0, 0, 0, 1, 0, 2, 0, 0, 0, 1] ++ [0, 0, 1, 0, 1] ++
    [0, 0, 1, 0, 1, 0, 0, 0, 0, 0, 1, 7] ++ [0, 0, 1, 0, 1, 0, 0, 0, 0, 0, 1, 8] ++
    [0, 0, 1, 0, 1, 0, 0, 0, 0, 0, 1, 9]

theorem limits_cut_iff_one : (unlimited twoAnswers).result = .done 53 true ∧
    CutOf (unlimited twoAnswers) none (some 1) none (some 4)
      (decodeMessage none (some 1) none (some 4) twoAnswers) := by
  have hfull : (unlimited twoAnswers).result = .done 53 true := by decide +kernel
  exact ⟨hfull, (limits_cut_iff twoAnswers 53 true hfull none (some 1) none (some 4)).2
    (by decide +kernel)⟩

/-- With a nil destination the first answer is taken for the additional record. With a
capacity of 65536 no answer is kept and none is reported missing. -/
theorem limits_shift_sections : (unlimited twoAnswers).result = .done 53 true ∧
    (decodeMessage (some 1) none none (some 1) twoAnswers).additionals =
      some [{ name := [0], type := 1, class_ := 1, ttl := 0, length := 1, data := [7] }] ∧
    (decodeMessage (some 1) none none (some 1) twoAnswers).result = .done 29 false ∧
    (decodeMessage (some 1) (some 65536) (some 0) (some 1) twoAnswers).answers = some [] ∧
    (decodeMessage (some 1) (some 65536) (some 0) (some 1) twoAnswers).result = .done 53 true := by
  decide +kernel

end Lneto.DnsLimits
