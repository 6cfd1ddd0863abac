import Lneto.HeaderScan

/-!
Parsing a header as its data arrives. The header after any number of attempts
shows one attempt on all data so far, started with the fields that earlier
attempts left. That is a single parse unless a first line without a status code
was read again, but for the flag of an incomplete attempt.
-/
namespace Lneto.HttpHeaders

open ByteSearch KeyValues Regions List HeaderV1

theorem response_only (data : Bytes) : (parseFirstLineResponse data).method = {} ∧
    (parseFirstLineResponse data).requestTarget = {} ∧
    (parseFirstLineResponse data).proto = {} := by
  unfold parseFirstLineResponse
  simp only
  split_ifs
  · exact ⟨rfl, rfl, rfl⟩
  · exact ⟨rfl, rfl, rfl⟩
  split
  · exact ⟨rfl, rfl, rfl⟩
  · split_ifs <;> exact ⟨rfl, rfl, rfl⟩

theorem request_only (data : Bytes) : (parseFirstLineRequest data).statusCode = {} ∧
    (parseFirstLineRequest data).statusText = {} := by
  unfold parseFirstLineRequest
  simp only
  split_ifs
  · exact ⟨rfl, rfl⟩
  · exact ⟨rfl, rfl⟩
  · split <;> exact ⟨rfl, rfl⟩

theorem firstLine_needMore {resp : Bool} {data : Bytes}
    (h : (parseFirstLine resp data).err = some .needMoreData) : parseFirstLine resp data =
      { off := (parseFirstLine resp data).off, err := some .needMoreData } := by
  cases resp with
  | true =>
    simp only [parseFirstLine, if_true] at h ⊢
    unfold parseFirstLineResponse at h ⊢
    simp only at h ⊢
    split_ifs at h ⊢ with h1 h2
    · rfl
    · rfl
    split at h
    · rfl
    · split_ifs at h <;> cases h
  | false =>
  simp only [parseFirstLine, Bool.false_eq_true, if_false] at h ⊢
  unfold parseFirstLineRequest at h ⊢
  simp only at h ⊢
  split_ifs at h ⊢ with h1 h2
  · rfl
  · rfl
  split at h
  · cases h
  · cases h
  · split_ifs at h
    cases h

theorem requestTarget_start {data : Bytes} (h : (parseFirstLine false data).err = none)
    (hmax : data.length ≤ maxBufLen) : (parseFirstLine false data).requestTarget.start ≠ 0 := by
  have hlen := scanLine_length data (skipLeadingCRLF data)
  have hskip := skip_le data
  simp only [parseFirstLine, Bool.false_eq_true, if_false] at h ⊢
  unfold parseFirstLineRequest at h ⊢
  simp only at h ⊢
  split_ifs at h ⊢ with h1 h2
  generalize (scanLine data (skipLeadingCRLF data)).1 = b at hlen h2 h ⊢
  have hm : (indexByte b space).getD 0 < b.length := by
    cases hi : indexByte b space with
    | none => simp only [Option.getD_none]; omega
    | some i => exact indexByte_lt hi
  split at h
  · cases h
  · cases h
  simp only [view, tokint]
  unfold maxBufLen at hmax
  omega

theorem firstLine_err (resp : Bool) (data : Bytes) :
    (parseFirstLine resp data).err ≠ some .bufferExhausted := by
  cases resp with
  | true =>
    simp only [parseFirstLine, if_true]
    unfold parseFirstLineResponse
    simp only
    split_ifs
    · simp
    · simp
    split
    · simp
    · split_ifs <;> simp
  | false =>
  simp only [parseFirstLine, Bool.false_eq_true, if_false]
  unfold parseFirstLineRequest
  simp only
  split_ifs
  · simp
  · simp
  split
  · simp
  · simp
  · split_ifs <;> simp

theorem next_err (data : Bytes) (off : ℕ) : (next data off).err ≠ some .bufferExhausted := by
  unfold next
  simp only
  split_ifs
  · simp
  · simp
  split
  · simp
  · simp
  split_ifs
  · simp
  · simp
  · split <;> simp

theorem fieldsFrom_err {data : Bytes} {canAdd : ℕ → Bool} (kvs : List Pair) (off : ℕ)
    (hoff : off ≤ data.length) : (fieldsFrom data canAdd kvs off).err ≠ some .bufferExhausted := by
  refine @fieldsFrom_induction data canAdd (fun kvs off =>
    (fieldsFrom data canAdd kvs off).err ≠ some .bufferExhausted) ?_ ?_ ?_ kvs off hoff
  · intro kvs off _ h
    rw [fieldsFrom_stop h]
    exact next_err data off
  · intro kvs off _ h hadd
    rw [fieldsFrom_full h hadd]
    simp
  intro kvs off _ h hadd ih
  rw [fieldsFrom_take h hadd]
  exact ih

/-- The first line of some data, and the fields found behind others. -/
def attempt (asResponse : Bool) (canAdd : ℕ → Bool) (kvs : List Pair) (data : Bytes) :
    FirstLine × Fields :=
  let r := parseFirstLine asResponse data
  (r, if r.err = none then fieldsFrom data canAdd kvs r.off
    else { kvs, off := r.off, err := r.err })

section Attempt
variable {resp : Bool} {canAdd : ℕ → Bool} {kvs : List Pair} {data : Bytes}

theorem attempt_done (h : (parseFirstLine resp data).err = none) :
    attempt resp canAdd kvs data = (parseFirstLine resp data,
      fieldsFrom data canAdd kvs (parseFirstLine resp data).off) := by
  rw [attempt, if_pos h]

theorem attempt_stuck (h : (parseFirstLine resp data).err ≠ none) :
    attempt resp canAdd kvs data = (parseFirstLine resp data,
      { kvs, off := (parseFirstLine resp data).off,
        err := (parseFirstLine resp data).err }) := by
  rw [attempt, if_neg h]

theorem attempt_grow (h : (attempt resp canAdd kvs data).2.err ≠ some .needMoreData)
    (more : Bytes) : attempt resp canAdd kvs (data ++ more) = attempt resp canAdd kvs data := by
  by_cases hdone : (parseFirstLine resp data).err = none
  · have hline := firstLine_grow (show (parseFirstLine resp data).err ≠
      some .needMoreData by rw [hdone]; simp) more
    rw [attempt_done hdone] at h ⊢
    rw [attempt_done (by rw [hline]; exact hdone), hline,
      fieldsFrom_grow more kvs _ (firstLine_off_le resp data), if_neg h]
  rw [attempt_stuck hdone] at h ⊢
  have hline := firstLine_grow h more
  rw [attempt_stuck (by rw [hline]; exact hdone), hline]

theorem attempt_err : (attempt resp canAdd kvs data).2.err ≠ some .bufferExhausted := by
  by_cases hdone : (parseFirstLine resp data).err = none
  · rw [attempt_done hdone]
    exact fieldsFrom_err _ _ (firstLine_off_le resp data)
  · rw [attempt_stuck hdone]
    exact firstLine_err resp data

theorem attempt_inside (hkvs : ∀ p ∈ kvs, PairInside data p) :
    ∀ p ∈ (attempt resp canAdd kvs data).2.kvs, PairInside data p := by
  by_cases hdone : (parseFirstLine resp data).err = none
  · rw [attempt_done hdone]
    exact fieldsFrom_inside _ _ (firstLine_off_le resp data) hkvs
  · rw [attempt_stuck hdone]
    exact hkvs

theorem attempt_valid (hkvs : ∀ p ∈ kvs, p.isValidHeader) :
    ∀ p ∈ (attempt resp canAdd kvs data).2.kvs, p.isValidHeader := by
  by_cases hdone : (parseFirstLine resp data).err = none
  · rw [attempt_done hdone]
    obtain ⟨new, hnew, hvalid, -⟩ := @fieldsFrom_kvs data canAdd kvs _ (firstLine_off_le resp data)
    simp only [hnew]
    intro p hp
    rcases mem_append.1 hp with hp | hp
    · exact hkvs p hp
    · exact hvalid p hp
  · rw [attempt_stuck hdone]
    exact hkvs

end Attempt

/-- The header holds the data and shows the attempt; `sticky` is the flag an incomplete attempt
before it has left. -/
structure Shows (canAdd : ℕ → Bool) (h : HeaderV1) (data : Bytes) (a : FirstLine × Fields)
    (sticky : Bool) : Prop where
  data : h.data = data
  method : h.method = a.1.method
  requestTarget : h.requestTarget = a.1.requestTarget
  proto : h.proto = a.1.proto
  statusCode : h.statusCode = a.1.statusCode
  statusText : h.statusText = a.1.statusText
  kvs : h.kv.kvs = a.2.kvs
  off : h.off = a.2.off
  flags : h.kv.flags = { noBufferGrow := h.kv.flags.noBufferGrow
                         noHTTP11 := a.1.noHTTP11
                         connClose := sticky || (a.1.err.isNone && a.2.err.isSome)
                         doneParsingHeader := a.1.err.isNone && a.2.err.isNone }
  canAdd : h.canAdd = canAdd
  slots : h.kv.flags.noBufferGrow = true → h.kv.kvs.length ≤ h.kv.kvCap

theorem parseNextHeaders_eq (h : HeaderV1) : let f := fieldsFrom h.data h.canAdd h.kv.kvs h.off
    h.parseNextHeaders =
      ({ h with
         off := f.off
         kv := { h.kv with
                 kvs := f.kvs
                 kvCap := max h.kv.kvCap f.kvs.length
                 flags := { h.kv.flags with
                            connClose := h.kv.flags.connClose || f.err.isSome
                            doneParsingHeader := h.kv.flags.doneParsingHeader || f.err.isNone } } },
        f.err) := by
  intro f
  unfold parseNextHeaders
  rw [show fieldLoop h.data h.canAdd (h.data.length + 1) h.kv.kvs h.off = f from rfl]
  cases hf : f.err with
  | none | some => simp [hf]

theorem slots_filled {h : HeaderV1} (hoff : h.off ≤ h.data.length)
    (hslots : h.kv.flags.noBufferGrow → h.kv.kvs.length ≤ h.kv.kvCap) : h.kv.flags.noBufferGrow →
      (fieldsFrom h.data h.canAdd h.kv.kvs h.off).kvs.length ≤ h.kv.kvCap := by
  intro hgrow
  obtain ⟨new, hnew, -, hcap⟩ := @fieldsFrom_kvs h.data h.canAdd h.kv.kvs h.off hoff
  rw [hnew]
  refine hcap h.kv.kvCap (fun n hn => ?_) (hslots hgrow)
  simp only [canAdd, hgrow, Bool.not_true, Bool.or_false, decide_eq_true_eq] at hn
  exact hn

theorem parseNextHeaders_shows {canAdd : ℕ → Bool} {h : HeaderV1} {data : Bytes} {r : FirstLine}
    (hdata : h.data = data) (hm : h.method = r.method) (ht : h.requestTarget = r.requestTarget)
    (hp : h.proto = r.proto) (hc : h.statusCode = r.statusCode) (hx : h.statusText = r.statusText)
    (hr : r.err = none) {sticky : Bool}
    (hflags : h.kv.flags = { noBufferGrow := h.kv.flags.noBufferGrow
                             noHTTP11 := r.noHTTP11
                             connClose := sticky })
    (hadd : h.canAdd = canAdd) (hoff : h.off ≤ data.length)
    (hslots : h.kv.flags.noBufferGrow → h.kv.kvs.length ≤ h.kv.kvCap) :
    Shows canAdd h.parseNextHeaders.1 data (r, fieldsFrom data canAdd h.kv.kvs h.off) sticky ∧
      h.parseNextHeaders.2 = (fieldsFrom data canAdd h.kv.kvs h.off).err := by
  subst hdata hadd
  have hfill := slots_filled hoff hslots
  rw [parseNextHeaders_eq]
  refine ⟨⟨rfl, hm, ht, hp, hc, hx, rfl, rfl, ?_, ?_, fun hgrow => ?_⟩, rfl⟩
  · rw [hflags, hr]
    simp
  · generalize fieldsFrom h.data h.canAdd h.kv.kvs h.off = f at hfill ⊢
    funext n
    simp only [canAdd]
    cases hgrow : h.kv.flags.noBufferGrow with
    | false => simp
    | true => rw [Nat.max_eq_left (hfill hgrow)]
  · exact (hfill hgrow).trans (Nat.le_max_left _ _)

/-- A header without a first line, or one that is read again, is parsed from the start. -/
theorem parse_shows {resp : Bool} {canAdd : ℕ → Bool} {h : HeaderV1} {data : Bytes}
    (hdata : h.data = data) (hmax : data.length ≤ maxBufLen)
    (hrequest : resp = false → h.statusCode = {} ∧ h.statusText = {})
    (hresponse : resp → h.method = {} ∧ h.requestTarget = {} ∧ h.proto = {}) {sticky no11 : Bool}
    (hflags : h.kv.flags = { noBufferGrow := h.kv.flags.noBufferGrow
                             noHTTP11 := no11
                             connClose := sticky })
    (hno : no11 → (parseFirstLine resp data).noHTTP11) (hadd : h.canAdd = canAdd)
    (hslots : h.kv.flags.noBufferGrow → h.kv.kvs.length ≤ h.kv.kvCap) :
    Shows canAdd (h.parse resp).1 data (attempt resp canAdd h.kv.kvs data) sticky ∧
      (h.parse resp).2 = (attempt resp canAdd h.kv.kvs data).2.err := by
  subst hdata
  obtain ⟨line, hfirst⟩ : ∃ line, line = parseFirstLine resp h.data := ⟨_, rfl⟩
  rw [← hfirst] at hno
  have hno' : (no11 || line.noHTTP11) = line.noHTTP11 := by
    cases no11 with
    | false => rfl
    | true => rw [hno rfl]; rfl
  obtain ⟨h₁, hline, hm, ht, hp, hc, hx, hoff, hdata₁, hflags₁, hkvs₁, hcap₁⟩ :
      ∃ h₁, h.parseFirstLine resp = (h₁, line.err) ∧ h₁.method = line.method ∧
        h₁.requestTarget = line.requestTarget ∧ h₁.proto = line.proto ∧
        h₁.statusCode = line.statusCode ∧ h₁.statusText = line.statusText ∧
        h₁.off = line.off ∧ h₁.data = h.data ∧
        h₁.kv.flags = { noBufferGrow := h.kv.flags.noBufferGrow
                        noHTTP11 := line.noHTTP11
                        connClose := sticky } ∧
        h₁.kv.kvs = h.kv.kvs ∧ h₁.kv.kvCap = h.kv.kvCap := by
    subst hfirst
    have hfl : ({ h.kv.flags with
        noHTTP11 := h.kv.flags.noHTTP11 || (parseFirstLine resp h.data).noHTTP11 } : Flags) =
        { noBufferGrow := h.kv.flags.noBufferGrow
          noHTTP11 := (parseFirstLine resp h.data).noHTTP11
          connClose := sticky } := by
      rw [hflags]
      simp only [hno']
    unfold HeaderV1.parseFirstLine
    rw [if_neg (by omega)]
    cases resp with
    | true =>
      obtain ⟨h1, h2, h3⟩ := hresponse rfl
      obtain ⟨r1, r2, r3⟩ := response_only h.data
      exact ⟨_, rfl, h1.trans r1.symm, h2.trans r2.symm, h3.trans r3.symm, rfl, rfl, rfl, rfl, hfl,
        rfl, rfl⟩
    | false =>
    obtain ⟨h1, h2⟩ := hrequest rfl
    obtain ⟨r1, r2⟩ := request_only h.data
    exact ⟨_, rfl, rfl, rfl, rfl, h1.trans r1.symm, h2.trans r2.symm, rfl, rfl, hfl, rfl, rfl⟩
  have hgrow : h₁.kv.flags.noBufferGrow = h.kv.flags.noBufferGrow := by rw [hflags₁]
  have hadd₁ : h₁.canAdd = canAdd := by
    rw [← hadd]
    funext n
    unfold HeaderV1.canAdd
    rw [hcap₁, hgrow]
  have hslots₁ : h₁.kv.flags.noBufferGrow → h₁.kv.kvs.length ≤ h₁.kv.kvCap := by
    rw [hgrow, hkvs₁, hcap₁]
    exact hslots
  subst hfirst
  unfold HeaderV1.parse
  by_cases hdone : (parseFirstLine resp h.data).err = none
  · rw [hline, hdone, attempt_done hdone, ← hkvs₁, ← hoff]
    exact parseNextHeaders_shows hdata₁ hm ht hp hc hx hdone (by rw [hgrow]; exact hflags₁) hadd₁
      (by rw [hoff]; exact firstLine_off_le _ _) hslots₁
  obtain ⟨e, he⟩ := Option.ne_none_iff_exists'.1 hdone
  rw [hline, attempt_stuck hdone, he]
  refine ⟨⟨hdata₁, hm, ht, hp, hc, hx, hkvs₁, hoff, ?_, hadd₁, hslots₁⟩, rfl⟩
  rw [hgrow, hflags₁, he]
  simp

/-- The first line is there and the fields are not complete. -/
def Pending (a : FirstLine × Fields) : Prop := a.1.err = none ∧ a.2.err = some .needMoreData

/-- The status code of a response is empty, which is taken for a first line not yet read. -/
def Again (asResponse : Bool) (data : Bytes) : Prop :=
  asResponse = true ∧ (parseFirstLine asResponse data).statusCode.len = 0

section Step
variable {resp : Bool} {canAdd : ℕ → Bool} {h : HeaderV1} {kvs : List Pair}
  {data chunk : Bytes} {sticky : Bool}

theorem tryParse_eq (hdone : h.kv.flags.doneParsingHeader = false)
    (hmangled : h.kv.flags.mangledBuffer = false) : h.tryParse resp =
      if (resp ∧ h.statusCode.len = 0) ∨
        (resp = false ∧ h.requestTarget.start = 0) then h.parse resp else h.parseNextHeaders := by
  unfold tryParse
  rw [hdone, hmangled]
  cases resp <;> simp

section
variable (hs : Shows canAdd h (data ++ chunk) (attempt resp canAdd kvs data) sticky)
include hs

theorem tryParse_line (hline : (parseFirstLine resp data).err = some .needMoreData)
    (hmax : (data ++ chunk).length ≤ maxBufLen) : Shows canAdd (h.tryParse resp).1 (data ++ chunk)
        (attempt resp canAdd kvs (data ++ chunk)) sticky ∧
      (h.tryParse resp).2 = (attempt resp canAdd kvs (data ++ chunk)).2.err := by
  have hblank := firstLine_needMore hline
  rw [attempt_stuck (by rw [hline]; simp)] at hs
  obtain ⟨hdata, hm, ht, hp, hc, hx, hkvs, hoff, hflags, hadd, hslots⟩ := hs
  rw [hblank] at hm ht hp hc hx hflags
  simp only [Option.isNone_some, Bool.false_and, Bool.or_false] at hflags hm ht hp hc hx
  rw [tryParse_eq (by rw [hflags]) (by rw [hflags]), if_pos]
  · rw [show kvs = h.kv.kvs from hkvs.symm]
    exact parse_shows hdata hmax (fun _ => ⟨hc, hx⟩) (fun _ => ⟨hm, ht, hp⟩) hflags
      (fun hno => absurd hno Bool.false_ne_true) hadd hslots
  · rw [hc, ht]
    cases resp <;> simp

theorem tryParse_fields (hpend : Pending (attempt resp canAdd kvs data))
    (hmax : (data ++ chunk).length ≤ maxBufLen) {kvs' : List Pair}
    (hagain : Again resp data → kvs' = (attempt resp canAdd kvs data).2.kvs)
    (hnot : ¬ Again resp data → kvs' = kvs) : Shows canAdd (h.tryParse resp).1 (data ++ chunk)
        (attempt resp canAdd kvs' (data ++ chunk)) true ∧
      (h.tryParse resp).2 = (attempt resp canAdd kvs' (data ++ chunk)).2.err := by
  obtain ⟨hdone, hneed⟩ := hpend
  change (parseFirstLine resp data).err = none at hdone
  have hgrow := firstLine_grow (show (parseFirstLine resp data).err ≠
    some .needMoreData by rw [hdone]; simp) chunk
  have hmax' : data.length ≤ maxBufLen := by
    rw [length_append] at hmax
    omega
  rw [attempt_done hdone] at hs hneed hagain
  obtain ⟨hdata, hm, ht, hp, hc, hx, hkvs, hoff, hflags, hadd, hslots⟩ := hs
  have hne : (fieldsFrom data canAdd kvs (parseFirstLine resp data).off).err =
    some .needMoreData := hneed
  simp only [hne, hdone, Option.isNone_none, Option.isSome_some, Option.isNone_some,
    Bool.and_true, Bool.and_false, Bool.or_true] at hflags
  rw [tryParse_eq (by rw [hflags]) (by rw [hflags])]
  by_cases hag : Again resp data
  · obtain ⟨hresp, hlen⟩ := hag
    rw [if_pos (.inl ⟨hresp, by rw [hc]; exact hlen⟩), hagain ⟨hresp, hlen⟩, ← hkvs]
    refine parse_shows hdata hmax (fun hno => ?_) (fun _ => ?_) hflags (fun hno => ?_) hadd hslots
    · rw [hresp] at hno
      cases hno
    · subst hresp
      obtain ⟨r1, r2, r3⟩ := response_only data
      exact ⟨hm.trans r1, ht.trans r2, hp.trans r3⟩
    · rw [hgrow]
      exact hno
  have hstart : ¬ ((resp ∧ h.statusCode.len = 0) ∨
      (resp = false ∧ h.requestTarget.start = 0)) := by
    rintro (⟨hresp, hlen⟩ | ⟨hreq, hzero⟩)
    · exact hag ⟨hresp, by rw [← hlen, hc]⟩
    · subst hreq
      exact requestTarget_start hdone hmax' (by rw [← hzero, ht])
  have hresume := @fieldsFrom_grow data canAdd chunk kvs _ (firstLine_off_le resp data)
  rw [if_pos hne] at hresume
  rw [if_neg hstart, hnot hag, attempt_done (by rw [hgrow]; exact hdone), hgrow, hresume]
  have hle : h.off ≤ (data ++ chunk).length := by
    rw [hoff, length_append]
    have := (@fieldsFrom_off data canAdd kvs _ (firstLine_off_le resp data)).2.1
    simp only
    omega
  rw [show (fieldsFrom data canAdd kvs (parseFirstLine resp data).off).kvs = h.kv.kvs from
    hkvs.symm, show (fieldsFrom data canAdd kvs (parseFirstLine resp data).off).off = h.off
    from hoff.symm]
  exact parseNextHeaders_shows hdata hm ht hp hc hx hdone hflags hadd hle hslots

end

end Step

section Read
variable {canAdd : ℕ → Bool} {h : HeaderV1} {data chunk : Bytes} {slack : ℕ}

theorem append_bytes (b : Slice) (data : Bytes) (slack : ℕ) :
    (b.append data slack).mem.take (b.append data slack).len = b.mem.take b.len ++ data ∧
      (b.append data slack).len = b.len + data.length ∧
      (b.append data slack).mem.length = if b.len + data.length ≤ b.mem.length then b.mem.length
        else b.len + data.length + slack := by
  have hfits := b.fits
  have hfront : (b.mem.take b.len).length = b.len := by rw [length_take]; omega
  have hboth : (b.mem.take b.len ++ data).length = b.len + data.length := by
    rw [length_append, hfront]
  unfold Slice.append
  split_ifs with hroom
  · refine ⟨?_, rfl, ?_⟩
    · simp only [CircularBuffers.blit]
      rw [take_of_length_le (show data.length ≤ b.mem.length - b.len by omega), take_left' hboth]
    · exact CircularBuffers.length_blit _ _ _ (by omega)
  refine ⟨?_, rfl, ?_⟩
  · rw [take_left' hboth]
  · rw [length_append, hboth, length_replicate]

theorem length_data (h : HeaderV1) : h.data.length = h.kv.buf.len := by
  have := h.kv.buf.fits
  rw [data, length_take]
  omega

/-- A chunk is refused if it and the memory there is exceed the limit of the offsets. -/
theorem read_cases (hmangled : h.kv.flags.mangledBuffer = false) (hne : chunk ≠ [])
    (hroom : h.kv.flags.noBufferGrow → h.data.length + chunk.length ≤ h.kv.buf.mem.length) :
    h.readFromBytes chunk slack =
      if maxBufLen < chunk.length + h.kv.buf.mem.length then (h, some .bufferExhausted)
      else ({ h with kv := { h.kv with buf := h.kv.buf.append chunk slack } }, none) := by
  have hpos := length_pos_iff.2 hne
  have hfits := h.kv.buf.fits
  have hfree : h.kv.free = h.kv.buf.mem.length - h.kv.buf.len := rfl
  rw [length_data] at hroom
  unfold readFromBytes
  rw [if_neg (by omega), if_neg (by rw [hmangled]; exact Bool.false_ne_true)]
  split_ifs with hmax hfull
  · rfl
  · have := hroom hfull.2
    omega
  · rfl

theorem read_shows {a : FirstLine × Fields} {sticky : Bool} (hs : Shows canAdd h data a sticky) :
    Shows canAdd { h with kv := { h.kv with buf := h.kv.buf.append chunk slack } }
      (data ++ chunk) a sticky := by
  obtain ⟨hdata, hm, ht, hp, hc, hx, hkvs, hoff, hflags, hadd, hslots⟩ := hs
  refine ⟨?_, hm, ht, hp, hc, hx, hkvs, hoff, hflags, hadd, hslots⟩
  rw [← hdata]
  exact (append_bytes _ _ _).1

end Read

/-- Chunks are read, with the slack of each allocation, and parsed while more data is asked
for. -/
def feed (asResponse : Bool) : HeaderV1 × Option Err → List (Bytes × ℕ) → HeaderV1 × Option Err
  | s, [] => s
  | (h, err), (chunk, slack) :: rest =>
    match h.readFromBytes chunk slack with
    | (h, some e) => (h, some e)
    | (h, none) =>
      feed asResponse (if err = some .needMoreData then h.tryParse asResponse else (h, err)) rest

/-- A chunk is added, and parsed if more data was asked for. -/
def resumed (asResponse : Bool) (s : HeaderV1 × Option Err) (chunk : Bytes) (slack : ℕ) :
    HeaderV1 × Option Err :=
  let h : HeaderV1 := { s.1 with kv := { s.1.kv with buf := s.1.kv.buf.append chunk slack } }
  if s.2 = some .needMoreData then h.tryParse asResponse else (h, s.2)

def joined (chunks : List (Bytes × ℕ)) : Bytes := chunks.flatMap Prod.fst

def stops (data : Bytes) : List (Bytes × ℕ) → List Bytes
  | [] => []
  | (chunk, _) :: rest => data :: stops (data ++ chunk) rest

/-- The data before the first chunk that is refused. -/
def refusedAt (cap : ℕ) (data : Bytes) : List (Bytes × ℕ) → Option Bytes
  | [] => none
  | (chunk, slack) :: rest =>
    if maxBufLen < chunk.length + cap then some data
    else
      refusedAt (if data.length + chunk.length ≤ cap then cap
        else data.length + chunk.length + slack) (data ++ chunk) rest

section Feed
variable {resp : Bool} {canAdd : ℕ → Bool}

/-- Fields left behind and the flag come from attempts whose first line was there. -/
structure Session (asResponse : Bool) (canAdd : ℕ → Bool) (h : HeaderV1) (data : Bytes)
    (kvs : List Pair) (sticky : Bool) : Prop where
  shows : Shows canAdd h data (attempt asResponse canAdd kvs data) sticky
  left : kvs ≠ [] → sticky = true
  line : sticky = true → (parseFirstLine asResponse data).err = none
  inside : ∀ p ∈ kvs, PairInside data p
  valid : ∀ p ∈ kvs, p.isValidHeader = true

theorem line_grow {data : Bytes} (h : (parseFirstLine resp data).err = none) (chunk : Bytes) :
    (parseFirstLine resp (data ++ chunk)).err = none := by
  rw [firstLine_grow (by rw [h]; simp), h]

theorem session_step {h : HeaderV1} {data : Bytes} {kvs : List Pair} {sticky : Bool}
    (hs : Session resp canAdd h data kvs sticky) {chunk : Bytes} {slack : ℕ}
    (hmax : (data ++ chunk).length ≤ maxBufLen) :
    ∃ kvs' sticky', let s := resumed resp (h, (attempt resp canAdd kvs data).2.err) chunk slack
      Session resp canAdd s.1 (data ++ chunk) kvs' sticky' ∧
      s.2 = (attempt resp canAdd kvs' (data ++ chunk)).2.err ∧
      (sticky' ↔ sticky ∨ Pending (attempt resp canAdd [] data)) ∧
      (kvs' ≠ [] ↔ kvs ≠ [] ∨ (Pending (attempt resp canAdd [] data) ∧
        Again resp data ∧ (attempt resp canAdd [] data).2.kvs ≠ [])) := by
  have hshows := @read_shows canAdd h data chunk slack _ _ hs.shows
  have hinside : ∀ p ∈ kvs, PairInside (data ++ chunk) p :=
    fun p hp => ⟨(hs.inside p hp).1.grow chunk, (hs.inside p hp).2.grow chunk⟩
  by_cases hneed : (attempt resp canAdd kvs data).2.err = some .needMoreData
  · by_cases hdone : (parseFirstLine resp data).err = none
    · -- the fields are incomplete
      have hpend : Pending (attempt resp canAdd kvs data) := ⟨hdone, hneed⟩
      have hfirst : kvs = [] → Pending (attempt resp canAdd [] data) := fun hnil => hnil ▸ hpend
      obtain ⟨kvs', hagain, hnot⟩ : ∃ kvs' : List Pair,
          (Again resp data → kvs' = (attempt resp canAdd kvs data).2.kvs) ∧
          (¬ Again resp data → kvs' = kvs) := by
        by_cases hag : Again resp data
        · exact ⟨_, fun _ => rfl, fun hno => absurd hag hno⟩
        · exact ⟨kvs, fun hyes => absurd hyes hag, fun _ => rfl⟩
      obtain ⟨hshows', herr⟩ := tryParse_fields hshows hpend hmax hagain hnot
      refine ⟨kvs', true, ?_⟩
      simp only [resumed, if_pos hneed]
      refine ⟨⟨hshows', fun _ => rfl, fun _ => line_grow hdone chunk, ?_, ?_⟩, herr, ?_, ?_⟩
      · by_cases hag : Again resp data
        · rw [hagain hag]
          intro p hp
          obtain ⟨hk, hv⟩ := attempt_inside hs.inside p hp
          exact ⟨hk.grow chunk, hv.grow chunk⟩
        · rw [hnot hag]
          exact hinside
      · by_cases hag : Again resp data
        · rw [hagain hag]
          exact attempt_valid hs.valid
        · rw [hnot hag]
          exact hs.valid
      · refine iff_of_true trivial ?_
        by_cases hnil : kvs = []
        · exact .inr (hfirst hnil)
        · exact .inl (hs.left hnil)
      by_cases hag : Again resp data
      · rw [hagain hag]
        by_cases hnil : kvs = []
        · rw [hnil]
          exact ⟨fun hne => .inr ⟨hfirst hnil, hag, hne⟩, fun hor => by
            rcases hor with hno | ⟨-, -, hne⟩
            · exact absurd rfl hno
            · exact hne⟩
        refine iff_of_true ?_ (.inl hnil)
        rw [attempt_done hdone]
        obtain ⟨new, hnew, -⟩ := @fieldsFrom_kvs data canAdd kvs _ (firstLine_off_le resp data)
        simp only [hnew]
        exact append_ne_nil_of_left_ne_nil hnil _
      · rw [hnot hag]
        exact ⟨.inl, fun hor => hor.elim id fun hno => absurd hno.2.1 hag⟩
    · -- so is the first line
      have hline : (parseFirstLine resp data).err = some .needMoreData := by
        rw [attempt_stuck hdone] at hneed
        exact hneed
      obtain ⟨hshows', herr⟩ := tryParse_line hshows hline hmax
      have hsticky : sticky = false := by
        by_contra hyes
        exact hdone (hs.line (Bool.not_eq_false _ ▸ hyes))
      have hpend : ¬ Pending (attempt resp canAdd [] data) := fun hp => hdone hp.1
      refine ⟨kvs, sticky, ?_⟩
      simp only [resumed, if_pos hneed]
      refine ⟨⟨hshows', hs.left, fun hyes => ?_, hinside, hs.valid⟩, herr, ?_, ?_⟩
      · rw [hsticky] at hyes
        cases hyes
      · exact ⟨.inl, fun hor => hor.elim id fun hp => absurd hp hpend⟩
      · exact ⟨.inl, fun hor => hor.elim id fun hp => absurd hp.1 hpend⟩
  · -- the attempt is over
    have hsame := attempt_grow hneed chunk
    have hpend : kvs = [] → ¬ Pending (attempt resp canAdd [] data) := by
      rintro rfl hp
      exact hneed hp.2
    refine ⟨kvs, sticky, ?_⟩
    simp only [resumed, if_neg hneed]
    refine ⟨⟨by rw [hsame]; exact hshows, hs.left, fun hyes => line_grow (hs.line hyes) chunk,
      hinside, hs.valid⟩, by rw [hsame], ?_, ?_⟩
    · refine ⟨.inl, fun hor => hor.elim id fun hp => ?_⟩
      by_cases hnil : kvs = []
      · exact absurd hp (hpend hnil)
      · exact hs.left hnil
    refine ⟨.inl, fun hor => hor.elim id fun hp => ?_⟩
    by_cases hnil : kvs = []
    · exact absurd hp.1 (hpend hnil)
    · exact hnil

theorem tryParse_keeps (h : HeaderV1) (resp : Bool) : (h.tryParse resp).1.kv.buf = h.kv.buf ∧
      (h.tryParse resp).1.kv.flags.noBufferGrow = h.kv.flags.noBufferGrow := by
  have hfields : ∀ h : HeaderV1, h.parseNextHeaders.1.kv.buf = h.kv.buf ∧
      h.parseNextHeaders.1.kv.flags.noBufferGrow = h.kv.flags.noBufferGrow := by
    intro h
    rw [parseNextHeaders_eq]
    exact ⟨rfl, rfl⟩
  have hline : (h.parseFirstLine resp).1.kv.buf = h.kv.buf ∧
      (h.parseFirstLine resp).1.kv.flags.noBufferGrow = h.kv.flags.noBufferGrow := by
    unfold HeaderV1.parseFirstLine
    split_ifs <;> exact ⟨rfl, rfl⟩
  have hparse : (h.parse resp).1.kv.buf = h.kv.buf ∧
      (h.parse resp).1.kv.flags.noBufferGrow = h.kv.flags.noBufferGrow := by
    unfold HeaderV1.parse
    split
    · rename_i h₁ e heq
      rw [heq] at hline
      exact hline
    rename_i h₁ heq
    rw [heq] at hline
    exact ⟨(hfields h₁).1.trans hline.1, (hfields h₁).2.trans hline.2⟩
  unfold HeaderV1.tryParse
  split_ifs
  · exact ⟨rfl, rfl⟩
  · exact ⟨rfl, rfl⟩
  · exact hparse
  · exact hfields h

/-- How a reader ends: with all the data, or at a chunk that is refused. -/
theorem feed_spec : ∀ (chunks : List (Bytes × ℕ)) (h : HeaderV1) (data : Bytes) (kvs : List Pair)
    (sticky : Bool), Session resp canAdd h data kvs sticky → (∀ c ∈ chunks, c.1 ≠ []) →
    (data ++ joined chunks).length ≤ maxBufLen → (h.kv.flags.noBufferGrow →
      (data ++ joined chunks).length ≤ h.kv.buf.mem.length) →
    match refusedAt h.kv.buf.mem.length data chunks with
    | some stop => ∃ h' kvs' sticky', feed resp (h, (attempt resp canAdd kvs data).2.err) chunks =
          (h', some .bufferExhausted) ∧ Session resp canAdd h' stop kvs' sticky'
    | none => ∃ h' kvs' sticky', feed resp (h, (attempt resp canAdd kvs data).2.err) chunks =
          (h', (attempt resp canAdd kvs' (data ++ joined chunks)).2.err) ∧
        Session resp canAdd h' (data ++ joined chunks) kvs' sticky' ∧
        (sticky' ↔ sticky ∨ ∃ stop ∈ stops data chunks, Pending (attempt resp canAdd [] stop)) ∧
        (kvs' ≠ [] ↔ kvs ≠ [] ∨ ∃ stop ∈ stops data chunks,
          Pending (attempt resp canAdd [] stop) ∧ Again resp stop ∧
            (attempt resp canAdd [] stop).2.kvs ≠ []) := by
  intro chunks
  induction chunks with
  | nil =>
    intro h data kvs sticky hs _ _ _
    have hnil : data ++ joined [] = data := append_nil _
    rw [hnil]
    exact ⟨h, kvs, sticky, rfl, hs, by simp [stops], by simp [stops]⟩
  | cons c chunks ih =>
  intro h data kvs sticky hs hne hmax hroom
  obtain ⟨chunk, slack⟩ := c
  have hjoin : data ++ joined ((chunk, slack) :: chunks) = data ++ chunk ++ joined chunks := by
    rw [joined, flatMap_cons, append_assoc]
    rfl
  rw [hjoin] at hmax hroom ⊢
  have hlen : (data ++ chunk ++ joined chunks).length =
      data.length + chunk.length + (joined chunks).length := by
    rw [length_append, length_append]
  have hdata := hs.shows.data
  have hread := @read_cases h chunk slack (by rw [hs.shows.flags])
    (hne _ mem_cons_self) (fun hno => by rw [hdata]; have := hroom hno; omega)
  unfold refusedAt
  by_cases hrefused : maxBufLen < chunk.length + h.kv.buf.mem.length
  · rw [if_pos hrefused] at hread ⊢
    refine ⟨h, kvs, sticky, ?_, hs⟩
    rw [feed, hread]
  rw [if_neg hrefused] at hread ⊢
  obtain ⟨kvs', sticky', hs', herr, hsticky, hkvs⟩ := @session_step resp canAdd h data kvs
    sticky hs chunk slack (by rw [length_append]; omega)
  have hfeed : feed resp (h, (attempt resp canAdd kvs data).2.err)
      ((chunk, slack) :: chunks) =
      feed resp (resumed resp (h, (attempt resp canAdd kvs data).2.err) chunk slack) chunks := by
    rw [feed, hread]
    rfl
  rw [hfeed]
  generalize hst : resumed resp (h, (attempt resp canAdd kvs data).2.err) chunk slack = s
    at hs' herr ⊢
  have hkeeps : s.1.kv.buf = h.kv.buf.append chunk slack ∧
      s.1.kv.flags.noBufferGrow = h.kv.flags.noBufferGrow := by
    rw [← hst, resumed]
    split_ifs
    · exact tryParse_keeps _ _
    · exact ⟨rfl, rfl⟩
  have hcap := (append_bytes h.kv.buf chunk slack).2.2
  rw [← hkeeps.1, ← length_data, hdata] at hcap
  rw [← hcap]
  obtain ⟨h', e⟩ := s
  simp only at herr hs' hkeeps hcap ⊢
  rw [herr]
  have hrest := ih h' (data ++ chunk) kvs' sticky' hs'
    (fun c hc => hne c (mem_cons_of_mem _ hc)) hmax (fun hno => by
      rw [hkeeps.2] at hno
      have := hroom hno
      rw [hcap, if_pos (by omega)]
      exact this)
  split at hrest
  · exact hrest
  obtain ⟨h'', kvs'', sticky'', hrun, hs'', hsticky'', hkvs''⟩ := hrest
  refine ⟨h'', kvs'', sticky'', hrun, hs'', ?_, ?_⟩
  · rw [hsticky'', hsticky, or_assoc]
    simp [stops]
  · rw [hkvs'', hkvs, or_assoc]
    simp [stops]

end Feed

end Lneto.HttpHeaders
