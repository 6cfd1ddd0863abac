import Lneto.HeaderResume

/-!
What a caller sees of a parsed header, and when a header parsed from chunks is
the header parsed at once: if no attempt ended inside the fields, or the
connection closes anyway and nothing was read twice, and both are read or
refused alike.
-/
namespace Lneto.HttpHeaders

open ByteSearch KeyValues Regions List HeaderV1

structure Outcome where
  err : Option Err
  method : Bytes
  requestTarget : Bytes
  protocol : Bytes
  status : Bytes × Bytes
  fields : List (Bytes × Bytes)
  bufferParsed : ℕ
  body : Bytes × Option Err
  connectionClose : Bool
deriving DecidableEq, Repr

def outcome (s : HeaderV1 × Option Err) : Outcome :=
  { err := s.2
    method := s.1.getNonEmptyValue s.1.method
    requestTarget := s.1.getNonEmptyValue s.1.requestTarget
    protocol := s.1.getNonEmptyValue s.1.proto
    status := s.1.status
    fields := s.1.fields
    bufferParsed := s.1.bufferParsed
    body := s.1.body
    connectionClose := s.1.connectionClose.2 }

def valueIn (data : Bytes) (p : Pair) : Bytes := if p.hasValue then read data p.value else []

def foldIn (data : Bytes) (kvs : List Pair) (key : Bytes) : Bytes :=
  ((kvs.find? fun p => p.isValid && equalFoldASCII key (read data p.key)).map
    (valueIn data)).getD []

def tokenIn (data : Bytes) (kvs : List Pair) (token : Bytes) : Bool :=
  hasToken token ((foldIn data kvs headerConnection).length + 1) (foldIn data kvs headerConnection)

def shown (data : Bytes) (a : FirstLine × Fields) (sticky : Bool) (err : Option Err) : Outcome :=
  { err
    method := read data a.1.method
    requestTarget := read data a.1.requestTarget
    protocol := read data a.1.proto
    status := if a.1.statusCode.len = 0 then ([], [])
      else (read data a.1.statusCode, read data a.1.statusText)
    fields := (a.2.kvs.filter Pair.isValidHeader).map fun p => (read data p.key, valueIn data p)
    bufferParsed := a.2.off
    body := if a.1.err.isNone && a.2.err.isNone then (data.drop a.2.off, none)
      else ([], some .unparsed)
    connectionClose := sticky || (a.1.err.isNone && a.2.err.isSome) ||
      tokenIn data a.2.kvs strClose || (a.1.noHTTP11 && !tokenIn data a.2.kvs strKeepAlive) }

section Shown
variable {canAdd : ℕ → Bool} {h : HeaderV1} {data : Bytes} {a : FirstLine × Fields} {sticky : Bool}

theorem token_eq {r : Region} (hr : Inside h.data r) : h.kv.token r = read h.data r := by
  have hsplit : h.kv.buf.mem = h.data ++ h.kv.buf.mem.drop h.kv.buf.len :=
    (take_append_drop _ _).symm
  rw [KvBuffer.token, hsplit]
  exact read_append _ hr

theorem valueOf_eq {p : Pair} (hp : PairInside h.data p) : h.kv.valueOf p = valueIn h.data p := by
  rw [KvBuffer.valueOf, valueIn, token_eq hp.2]

theorem getFold_eq (hkvs : ∀ p ∈ h.kv.kvs, PairInside h.data p) (key : Bytes) :
    h.getFold key = foldIn h.data h.kv.kvs key := by
  unfold getFold foldIn
  congr 1
  generalize h.kv.kvs = l at hkvs ⊢
  induction l with
  | nil => rfl
  | cons p l ih =>
  have hp := hkvs p mem_cons_self
  rw [find?_cons, find?_cons, token_eq hp.1]
  split
  · exact congrArg some (valueOf_eq hp)
  · exact ih fun q hq => hkvs q (mem_cons_of_mem _ hq)

theorem nonEmpty_eq {r : Region} (hr : Inside h.data r) : h.getNonEmptyValue r = read h.data r := by
  unfold getNonEmptyValue
  split_ifs with hzero
  · rw [read_empty _ hzero]
  · exact token_eq hr

theorem outcome_shown (hs : Shows canAdd h data a sticky) (hline : FirstLineInside data a.1)
    (hkvs : ∀ p ∈ a.2.kvs, PairInside data p) (err : Option Err) :
    outcome (h, err) = shown data a sticky err := by
  obtain ⟨hdata, hm, ht, hp, hc, hx, hk, hoff, hflags, -, -⟩ := hs
  subst hdata
  obtain ⟨i1, i2, i3, i4, i5⟩ := hline
  have hmangled : h.kv.flags.mangledBuffer = false := by rw [hflags]
  have hoom : h.kv.flags.oomReached = false := by rw [hflags]
  have hdone : h.kv.flags.doneParsingHeader = (a.1.err.isNone && a.2.err.isNone) := by rw [hflags]
  have hclose : h.kv.flags.connClose = (sticky || (a.1.err.isNone && a.2.err.isSome)) := by
    rw [hflags]
  have hno : h.kv.flags.noHTTP11 = a.1.noHTTP11 := by rw [hflags]
  have hstatus : h.status = if a.1.statusCode.len = 0 then ([], [])
      else (read h.data a.1.statusCode, read h.data a.1.statusText) := by
    rw [status, hc, hx, token_eq i4, token_eq i5]
  have hfields : h.fields = (a.2.kvs.filter Pair.isValidHeader).map
      fun p => (read h.data p.key, valueIn h.data p) := by
    rw [fields, hk]
    refine map_congr_left fun p hmem => ?_
    have hin := hkvs p (mem_filter.1 hmem).1
    rw [token_eq hin.1, valueOf_eq hin]
  have htoken : ∀ token, h.hasConnectionToken token = tokenIn h.data a.2.kvs token := by
    intro token
    rw [hasConnectionToken, getFold_eq (by rw [hk]; exact hkvs), hk]
    rfl
  have hparsed : h.bufferParsed = a.2.off := by
    rw [bufferParsed, hmangled, hoom, if_neg (by simp), hoff]
  have hbody : h.body = if a.1.err.isNone && a.2.err.isNone then (h.data.drop a.2.off, none)
      else ([], some .unparsed) := by
    rw [body, hmangled, if_neg Bool.false_ne_true, hdone, hoff]
  unfold outcome shown connectionClose
  simp only [hm, ht, hp, nonEmpty_eq i1, nonEmpty_eq i2, nonEmpty_eq i3, hstatus, hfields, hparsed,
    hbody, hclose, htoken, hno]

theorem shown_sticky (data : Bytes) (a : FirstLine × Fields) (sticky : Bool) (err : Option Err) :
    shown data a sticky err = shown data a false err ↔
      (sticky → (shown data a false err).connectionClose = true) := by
  cases sticky with
  | false => simp
  | true =>
  rw [eq_comm]
  refine ⟨fun heq _ => ?_, fun hclose => ?_⟩
  · rw [heq]
    rfl
  have hval := hclose rfl
  unfold shown at hval ⊢
  simp only at hval
  simp only [hval, Bool.true_or]

end Shown

theorem canAdd_anti (h : HeaderV1) (m n : ℕ) (hle : m ≤ n) (hn : h.canAdd n) : h.canAdd m := by
  unfold canAdd at hn ⊢
  rw [Bool.or_eq_true, decide_eq_true_eq] at hn ⊢
  exact hn.imp_left (lt_of_le_of_lt hle)

theorem shown_twice {resp : Bool} {canAdd : ℕ → Bool} {data : Bytes} {kvs : List Pair}
    (hanti : ∀ m n, m ≤ n → canAdd n → canAdd m) (hne : kvs ≠ [])
    (hvalid : ∀ p ∈ kvs, p.isValidHeader)
    (hline : (parseFirstLine resp data).err = none) (sticky sticky' : Bool) :
    shown data (attempt resp canAdd kvs data) sticky (attempt resp canAdd kvs data).2.err ≠
      shown data (attempt resp canAdd [] data) sticky' (attempt resp canAdd [] data).2.err := by
  intro heq
  have herr := congrArg Outcome.err heq
  have hoff := congrArg Outcome.bufferParsed heq
  have hfields := congrArg (fun o => o.fields.length) heq
  have hlen : ∀ {l : List Pair}, (∀ p ∈ l, p.isValidHeader = true) →
      (attempt resp canAdd l data).2.kvs.filter Pair.isValidHeader =
        (attempt resp canAdd l data).2.kvs :=
    fun hl => filter_eq_self.2 (attempt_valid hl)
  simp only [shown] at herr hoff hfields
  rw [length_map, length_map, hlen hvalid, hlen (by simp)] at hfields
  rw [attempt_done hline, attempt_done hline] at herr hoff hfields
  rcases fieldsFrom_longer hanti kvs [] _ (firstLine_off_le resp data)
    (length_pos_iff.2 hne) with hdiff | hdiff | hdiff
  · exact hdiff hfields.symm
  · exact hdiff hoff.symm
  · exact hdiff herr.symm

theorem firstLine_blank {resp : Bool} {data : Bytes} (hlf : lf ∉ data)
    (hcr : data.head? ≠ some cr) :
    parseFirstLine resp data = { off := 0, err := some .needMoreData } := by
  have hskip : skipLeadingCRLF data = 0 := by
    unfold skipLeadingCRLF
    cases data with
    | nil => rfl
    | cons c rest =>
    have h1 : c ≠ lf := fun heq => hlf (heq ▸ mem_cons_self)
    have h2 : c ≠ cr := fun heq => hcr (heq ▸ rfl)
    rw [takeWhile_cons_of_neg (by simp [h1, h2])]
    rfl
  rcases firstLine_cases resp data with ⟨-, hr⟩ | ⟨hin, -⟩
  · rw [hr, hskip]
  · rw [hskip] at hin
    exact absurd hin hlf

theorem attempt_off_pos {resp : Bool} {canAdd : ℕ → Bool} {kvs : List Pair} {data : Bytes}
    (h : lf ∈ data ∨ data.head? = some cr) : 0 < (attempt resp canAdd kvs data).2.off := by
  have hskip : lf ∉ data.drop (skipLeadingCRLF data) → 0 < skipLeadingCRLF data := by
    intro hno
    by_contra hzero
    have hzero : skipLeadingCRLF data = 0 := by omega
    rcases h with hlf | hcr
    · rw [hzero] at hno
      exact hno hlf
    cases data with
    | nil => cases hcr
    | cons c rest =>
      cases hcr
      cases hzero
  have hpos : 0 < (parseFirstLine resp data).off := by
    rcases firstLine_cases resp data with ⟨hno, hr⟩ | ⟨hin, hoff, -⟩
    · rw [hr]
      exact hskip hno
    have := (scanLine_off hin).1
    omega
  by_cases hdone : (parseFirstLine resp data).err = none
  · rw [attempt_done hdone]
    have := (@fieldsFrom_off data canAdd kvs _ (firstLine_off_le resp data)).1
    simp only
    omega
  · rw [attempt_stuck hdone]
    exact hpos

/-- The chunks and the whole data are read alike. If they are read, a chunk but the last that
ends inside the fields belongs to a header that closes the connection anyway, and the fields are
not read again. If both are refused, nothing was parsed before. -/
def SameEnd (asResponse : Bool) (h : HeaderV1) (chunks : List (Bytes × ℕ)) (closes : Bool) : Prop :=
  match refusedAt h.kv.buf.mem.length [] chunks with
  | none => (joined chunks).length + h.kv.buf.mem.length ≤ maxBufLen ∧
      ∀ stop ∈ stops [] chunks, Pending (attempt asResponse h.canAdd [] stop) →
        closes = true ∧ (Again asResponse stop → (attempt asResponse h.canAdd [] stop).2.kvs = [])
  | some stop => maxBufLen < (joined chunks).length + h.kv.buf.mem.length ∧
      lf ∉ stop ∧ stop.head? ≠ some cr

theorem attempt_nil (resp : Bool) (canAdd : ℕ → Bool) : attempt resp canAdd [] [] =
      ({ off := 0, err := some .needMoreData },
        { kvs := [], off := 0, err := some .needMoreData }) := by
  have hr : parseFirstLine resp [] = { off := 0, err := some .needMoreData } :=
    firstLine_blank (by simp) (by simp)
  rw [attempt_stuck (by rw [hr]; simp), hr]

section Fresh
variable {h h₀ : HeaderV1} {buf : Option Slice} {numHeaderCapacity : ℕ}

theorem reset_fresh (hreset : h.reset buf numHeaderCapacity = some h₀)
    (hbuf : ∀ b, buf = some b → b.len = 0) (resp : Bool) :
    h₀.reset none 0 = some h₀ ∧ Session resp h₀.canAdd h₀ [] [] false := by
  unfold reset at hreset
  simp only at hreset
  split_ifs at hreset with hsmall
  cases hreset
  have hlen : (h.kv.reset buf numHeaderCapacity).buf.len = 0 := by
    cases buf with
    | none => rfl
    | some b => exact hbuf b rfl
  have hagain : (h.kv.reset buf numHeaderCapacity).reset none 0 =
      h.kv.reset buf numHeaderCapacity := by
    unfold KvBuffer.reset at hlen ⊢
    simp only [Option.getD_none, Nat.max_zero] at hlen ⊢
    congr 1
    generalize buf.getD _ = b at hlen ⊢
    cases b
    subst hlen
    rfl
  refine ⟨?_, ⟨?_, fun hno => absurd rfl hno, fun hno => absurd hno Bool.false_ne_true, by simp,
    by simp⟩⟩
  · unfold reset
    simp only [hagain]
    rw [if_neg hsmall]
  rw [attempt_nil]
  refine ⟨?_, rfl, rfl, rfl, rfl, rfl, rfl, rfl, rfl, rfl, fun _ => Nat.zero_le _⟩
  rw [data, hlen, take_zero]

theorem session_outcome {resp : Bool} {canAdd : ℕ → Bool} {data : Bytes} {kvs : List Pair}
    {sticky : Bool} (hs : Session resp canAdd h data kvs sticky) (err : Option Err) :
    outcome (h, err) = shown data (attempt resp canAdd kvs data) sticky err :=
  outcome_shown hs.shows (firstLine_inside resp data) (attempt_inside hs.inside) err

section
variable (hreset : h.reset buf numHeaderCapacity = some h₀) (hbuf : ∀ b, buf = some b → b.len = 0)
  (resp : Bool) {b : Bytes} (hne : b ≠ [])
include hreset hbuf resp hne

/-- The whole data parsed at once, if it is not refused. -/
theorem parseBytes_shows (hmax : b.length + h₀.kv.buf.mem.length ≤ maxBufLen)
    (hcap : h₀.kv.flags.noBufferGrow → b.length ≤ h₀.kv.buf.mem.length) (slack : ℕ) :
    ∃ p, h₀.parseBytes resp b slack = some p ∧
      Shows h₀.canAdd p.1 b (attempt resp h₀.canAdd [] b) false ∧
      p.2 = (attempt resp h₀.canAdd [] b).2.err := by
  obtain ⟨hsame, hs⟩ := reset_fresh hreset hbuf resp
  have hflags := hs.shows.flags
  have hread := @read_cases h₀ b slack (by rw [hflags]) hne
    (fun hno => by rw [hs.shows.data]; simpa using hcap hno)
  rw [if_neg (Nat.not_lt.2 hmax)] at hread
  unfold parseBytes
  rw [hsame]
  simp only [Option.bind_eq_bind, Option.bind_some, hread]
  refine ⟨_, rfl, ?_⟩
  have hread' := @read_shows h₀.canAdd h₀ [] b slack _ _ hs.shows
  rw [nil_append, attempt_nil] at hread'
  have hkvs := hread'.kvs
  have hparse := @parse_shows resp h₀.canAdd
    { h₀ with kv := { h₀.kv with buf := h₀.kv.buf.append b slack } } b hread'.data (by omega)
    (fun _ => ⟨hread'.statusCode, hread'.statusText⟩)
    (fun _ => ⟨hread'.method, hread'.requestTarget, hread'.proto⟩) false false hread'.flags
    (fun hno => absurd hno Bool.false_ne_true) rfl hread'.slots
  rw [hkvs] at hparse
  exact hparse

theorem parseBytes_cases
    (hcap : h₀.kv.flags.noBufferGrow → b.length ≤ h₀.kv.buf.mem.length) (slack : ℕ) :
    ∃ p, h₀.parseBytes resp b slack = some p ∧
      outcome p = if maxBufLen < b.length + h₀.kv.buf.mem.length then
          shown [] (attempt resp h₀.canAdd [] []) false (some .bufferExhausted)
        else shown b (attempt resp h₀.canAdd [] b) false (attempt resp h₀.canAdd [] b).2.err := by
  by_cases hrefused : maxBufLen < b.length + h₀.kv.buf.mem.length
  · obtain ⟨hsame, hs⟩ := reset_fresh hreset hbuf resp
    have hflags := hs.shows.flags
    have hread := @read_cases h₀ b slack (by rw [hflags]) hne
      (fun hno => by rw [hs.shows.data]; simpa using hcap hno)
    unfold parseBytes
    rw [hsame]
    simp only [Option.bind_eq_bind, Option.bind_some, hread]
    rw [if_pos hrefused, if_pos hrefused]
    exact ⟨_, rfl, session_outcome hs _⟩
  rw [if_neg hrefused]
  obtain ⟨p, hp, hshows, herr⟩ := parseBytes_shows hreset hbuf resp hne
    (Nat.not_lt.1 hrefused) hcap slack
  refine ⟨p, hp, ?_⟩
  rw [← herr]
  exact outcome_shown hshows (firstLine_inside resp b) (attempt_inside (by simp)) p.2

end

end Fresh

section Ends
variable {resp : Bool} {h h' : HeaderV1} {kvs : List Pair} {sticky : Bool}

theorem blank_iff {stop : Bytes} (hs : Session resp h.canAdd h' stop kvs sticky) :
    shown stop (attempt resp h.canAdd kvs stop) sticky (some .bufferExhausted) =
        shown [] (attempt resp h.canAdd [] []) false (some .bufferExhausted) ↔
      lf ∉ stop ∧ stop.head? ≠ some cr := by
  constructor
  · intro heq
    have hoff := congrArg Outcome.bufferParsed heq
    rw [attempt_nil] at hoff
    by_contra hno
    rw [not_and_or, not_not, not_not] at hno
    have := @attempt_off_pos resp h.canAdd kvs stop hno
    simp only [shown] at hoff
    omega
  rintro ⟨hlf, hcr⟩
  have hr := @firstLine_blank resp stop hlf hcr
  have hsticky : sticky = false := by
    by_contra hyes
    have := hs.line (Bool.not_eq_false _ ▸ hyes)
    rw [hr] at this
    cases this
  have hnil : kvs = [] := by
    by_contra hne
    rw [hs.left hne] at hsticky
    cases hsticky
  have hread : ∀ d : Bytes, read d {} = [] := fun d => read_empty d rfl
  rw [hsticky, hnil, attempt_nil, attempt_stuck (by rw [hr]; simp), hr]
  simp [shown, hread, tokenIn, foldIn, hasToken]

theorem whole_iff {data : Bytes} (hs : Session resp h.canAdd h' data kvs sticky) :
    shown data (attempt resp h.canAdd kvs data) sticky (attempt resp h.canAdd kvs data).2.err =
        shown data (attempt resp h.canAdd [] data) false (attempt resp h.canAdd [] data).2.err ↔
      kvs = [] ∧ (sticky → (shown data (attempt resp h.canAdd [] data) false
        (attempt resp h.canAdd [] data).2.err).connectionClose = true) := by
  by_cases hnil : kvs = []
  · subst hnil
    rw [shown_sticky]
    exact ⟨fun hclose => ⟨rfl, hclose⟩, fun hboth => hboth.2⟩
  · refine iff_of_false ?_ fun hboth => hnil hboth.1
    exact shown_twice (canAdd_anti h) hnil hs.valid (hs.line (hs.left hnil)) _ _

end Ends

/-- A header read in chunks ends as the one parsed at once exactly if the end is the same. -/
theorem incremental_iff (h h₀ : HeaderV1) (buf : Option Slice) (numHeaderCapacity : ℕ)
    (hreset : h.reset buf numHeaderCapacity = some h₀) (hbuf : ∀ b, buf = some b → b.len = 0)
    (asResponse : Bool) (chunks : List (Bytes × ℕ)) (hchunks : chunks ≠ [])
    (hne : ∀ c ∈ chunks, c.1 ≠ []) (hmax : (joined chunks).length ≤ maxBufLen)
    (hcap : h₀.kv.flags.noBufferGrow = true → (joined chunks).length ≤ h₀.kv.buf.mem.length)
    (slack : ℕ) : ∃ p, h₀.parseBytes asResponse (joined chunks) slack = some p ∧
      (outcome (feed asResponse (h₀, some .needMoreData) chunks) = outcome p ↔
        SameEnd asResponse h₀ chunks (outcome p).connectionClose) := by
  have hjoined : joined chunks ≠ [] := by
    obtain ⟨c, rest, rfl⟩ := exists_cons_of_ne_nil hchunks
    exact append_ne_nil_of_left_ne_nil (hne c mem_cons_self) _
  obtain ⟨p, hp, hout⟩ := parseBytes_cases hreset hbuf asResponse hjoined hcap slack
  obtain ⟨-, hs⟩ := reset_fresh hreset hbuf asResponse
  have hfeed := feed_spec chunks h₀ [] [] false hs hne (by rw [nil_append]; exact hmax)
    (fun hno => by rw [nil_append]; exact hcap hno)
  rw [attempt_nil, nil_append] at hfeed
  refine ⟨p, hp, ?_⟩
  unfold SameEnd
  cases hrefused : refusedAt h₀.kv.buf.mem.length [] chunks with
  | some stop =>
    rw [hrefused] at hfeed
    obtain ⟨h', kvs', sticky', hrun, hs'⟩ := hfeed
    rw [hrun, session_outcome hs', hout]
    split_ifs with hwhole
    · rw [blank_iff hs']
      exact ⟨fun hboth => ⟨hwhole, hboth⟩, fun hall => hall.2⟩
    · refine iff_of_false (fun heq => ?_) fun hall => hwhole hall.1
      exact attempt_err (congrArg Outcome.err heq).symm
  | none =>
  rw [hrefused] at hfeed
  obtain ⟨h', kvs', sticky', hrun, hs', hsticky, hkvs⟩ := hfeed
  rw [hrun, session_outcome hs', hout]
  split_ifs with hwhole
  · refine iff_of_false (fun heq => ?_) fun hall => absurd hwhole (Nat.not_lt.2 hall.1)
    exact attempt_err (congrArg Outcome.err heq)
  rw [whole_iff hs', hsticky]
  have hnone : kvs' = [] ↔ ∀ stop ∈ stops [] chunks,
      Pending (attempt asResponse h₀.canAdd [] stop) → Again asResponse stop →
        (attempt asResponse h₀.canAdd [] stop).2.kvs = [] := by
    rw [← not_not (a := kvs' = []), ← ne_eq, hkvs]
    simp
  rw [hnone]
  constructor
  · rintro ⟨htwice, hclose⟩
    exact ⟨Nat.not_lt.1 hwhole, fun stop hstop hpend =>
      ⟨hclose (.inr ⟨stop, hstop, hpend⟩), htwice stop hstop hpend⟩⟩
  rintro ⟨-, hall⟩
  refine ⟨fun stop hstop hpend => (hall stop hstop hpend).2, ?_⟩
  rintro (hno | ⟨stop, hstop, hpend⟩)
  · cases hno
  · exact (hall stop hstop hpend).1

def getLine : Bytes := [71, 69, 84, 32, 47, 32, 72, 84, 84, 80, 47, 49, 46, 49, 13, 10]

def fieldLine : Bytes := [65, 58, 32, 98, 13, 10]

theorem incremental_iff_line : ∃ p,
    ({} : HeaderV1).parseBytes false
      (joined [(getLine.take 8, 0), (getLine.drop 8 ++ fieldLine ++ crlf, 0)]) 0 = some p ∧
    outcome (feed false ({}, some .needMoreData)
      [(getLine.take 8, 0), (getLine.drop 8 ++ fieldLine ++ crlf, 0)]) = outcome p := by
  obtain ⟨p, hp, hiff⟩ := incremental_iff {} {} none 0 rfl (by simp) false
    [(getLine.take 8, 0), (getLine.drop 8 ++ fieldLine ++ crlf, 0)] (by decide) (by decide)
    (by decide) (by decide) 0
  refine ⟨p, hp, hiff.2 ?_⟩
  have hread : refusedAt 0 [] [(getLine.take 8, 0), (getLine.drop 8 ++ fieldLine ++ crlf, 0)] =
      none := by decide
  have hline : ∀ stop ∈ stops [] [(getLine.take 8, 0), (getLine.drop 8 ++ fieldLine ++ crlf, 0)],
      (parseFirstLine false stop).err ≠ none := by decide
  unfold SameEnd
  rw [show ({} : HeaderV1).kv.buf.mem.length = 0 from rfl, hread]
  exact ⟨by decide, fun stop hstop hpend => absurd hpend.1 (hline stop hstop)⟩

/-- A request split inside its field keeps the flag to close the connection; a response without a
status code has the field before the split twice. -/
theorem split_headers_differ :
    (∃ p, ({} : HeaderV1).parseBytes false (getLine ++ fieldLine ++ crlf) 0 = some p ∧
      (outcome p).err = none ∧ (outcome p).connectionClose = false ∧
      (outcome (feed false ({}, some .needMoreData)
        [(getLine ++ fieldLine.take 2, 0), (fieldLine.drop 2 ++ crlf, 0)])).err = none ∧
      (outcome (feed false ({}, some .needMoreData)
        [(getLine ++ fieldLine.take 2, 0),
          (fieldLine.drop 2 ++ crlf, 0)])).connectionClose = true) ∧
    ∃ p, ({} : HeaderV1).parseBytes true (strHTTP11 ++ [space] ++ crlf ++ fieldLine ++ fieldLine ++
        crlf) 0 = some p ∧
      (outcome p).fields.length = 2 ∧
      (outcome (feed true ({}, some .needMoreData)
        [(strHTTP11 ++ [space] ++ crlf ++ fieldLine ++ fieldLine.take 2, 0),
          (fieldLine.drop 2 ++ crlf, 0)])).fields.length = 3 :=
  ⟨⟨_, rfl, by decide +kernel, by decide +kernel, by decide +kernel, by decide +kernel⟩,
    ⟨_, rfl, by decide +kernel, by decide +kernel⟩⟩

end Lneto.HttpHeaders
