import Lneto.HttpHeaders
import Lneto.KeyValueCalls

/-!
The response side of an exchange. Header fields are staged in the raw buffer
behind the request header, the status line apart; the first flush writes both
and body bytes follow. One sticky error records a field that did not fit and a
write that failed.
-/
namespace Lneto.ExchangeResponse

open CircularBuffers HttpHeaders KeyValues Regions List

def text (s : String) : Bytes := s.toList.map fun c => UInt8.ofNat c.toNat

def statusTexts : List (ℤ × String) :=
  [(100, "Continue"), (101, "Switching Protocols"), (102, "Processing"), (103, "Early Hints"),
   (200, "OK"),
   (201, "Created"),
   (202, "Accepted"),
   (203, "Non-Authoritative Information"),
   (204, "No Content"),
   (205, "Reset Content"),
   (206, "Partial Content"),
   (207, "Multi-Status"),
   (208, "Already Reported"),
   (226, "IM Used"),
   (300, "Multiple Choices"),
   (301, "Moved Permanently"),
   (302, "Found"),
   (303, "See Other"),
   (304, "Not Modified"),
   (305, "Use Proxy"),
   (307, "Temporary Redirect"),
   (308, "Permanent Redirect"),
   (400, "Bad Request"),
   (401, "Unauthorized"),
   (402, "Payment Required"),
   (403, "Forbidden"),
   (404, "Not Found"),
   (405, "Method Not Allowed"),
   (406, "Not Acceptable"),
   (407, "Proxy Authentication Required"),
   (408, "Request Timeout"),
   (409, "Conflict"),
   (410, "Gone"),
   (411, "Length Required"),
   (412, "Precondition Failed"),
   (413, "Request Entity Too Large"),
   (414, "Request URI Too Long"),
   (415, "Unsupported Media Type"),
   (416, "Requested Range Not Satisfiable"),
   (417, "Expectation Failed"),
   (418, "I'm a teapot"),
   (421, "Misdirected Request"),
   (422, "Unprocessable Entity"),
   (423, "Locked"),
   (424, "Failed Dependency"),
   (425, "Too Early"),
   (426, "Upgrade Required"),
   (428, "Precondition Required"),
   (429, "Too Many Requests"),
   (431, "Request Header Fields Too Large"),
   (451, "Unavailable For Legal Reasons"),
   (500, "Internal Server Error"),
   (501, "Not Implemented"),
   (502, "Bad Gateway"),
   (503, "Service Unavailable"),
   (504, "Gateway Timeout"),
   (505, "HTTP Version Not Supported"),
   (506, "Variant Also Negotiates"),
   (507, "Insufficient Storage"),
   (508, "Loop Detected"),
   (510, "Not Extended"),
   (511, "Network Authentication Required")]

/-- Codes without a text get the empty one. -/
def statusText (code : ℤ) : Bytes := text ((statusTexts.lookup code).getD "")

inductive RespErr where
  | bufferFull
  | write
deriving DecidableEq, Repr

/-- What a write to the connection comes to: all bytes are taken, or only the first `n` of
them with an error. -/
inductive Write where
  | done
  | fails (n : ℕ)
deriving DecidableEq, Repr

/-- The connection: the bytes it took, whether a write failed, and the bytes it took after
that. -/
structure Conn where
  sent : Bytes := []
  failed : Bool := false
  afterFailure : Bytes := []
deriving DecidableEq, Repr

def Conn.take (c : Conn) (data : Bytes) : Conn :=
  { c with
    sent := c.sent ++ data
    afterFailure := c.afterFailure ++ if c.failed then data else [] }

def Conn.write (c : Conn) (data : Bytes) : Write → Conn × ℕ
  | .done => (c.take data, data.length)
  | .fails n => ({ c.take (data.take n) with failed := true }, min n data.length)

def Write.err : Write → Option RespErr
  | .done => none
  | .fails _ => some .write

structure Exchange where
  rawbuf : Slice
  respHeaderOff : ℕ
  respHeaderLen : ℕ := 0
  /-- The first respTopWritten bytes of respTopBuf. -/
  respTop : Bytes := []
  respErr : Option RespErr := none
  headerWritten : Bool := false
  normalizeKeys : Bool := false
  rw : Conn := {}
deriving DecidableEq, Repr

def respTopBufLen : ℕ := 46

def upper (c : UInt8) : UInt8 := if 97 ≤ c ∧ c ≤ 122 then c - 32 else c

/-- A letter behind a dash becomes a capital; a dash that ends the key is only a dash. -/
def normalizeRest : Bytes → Bytes
  | [] => []
  | [c] => [lower c]
  | c :: d :: rest =>
    if c = 45 then c :: upper d :: normalizeRest rest else lower c :: normalizeRest (d :: rest)

def normalizeHeaderKey : Bytes → Bytes
  | [] => []
  | c :: rest => upper c :: normalizeRest rest

def stagedLine (normalizeKeys : Bool) (key value : Bytes) : Bytes :=
  (if normalizeKeys then normalizeHeaderKey key else key) ++ [colon] ++ value ++ crlf

def statusLine (code : ℤ) : Bytes :=
  text "HTTP/1.1 " ++ formatInt code 10 ++ [space] ++ statusText code ++ crlf

namespace Exchange

/-- An acquired exchange whose request header took `parsed` bytes. -/
def acquire (rawbuf : Slice) (parsed : ℕ) (normalizeKeys : Bool) : Exchange :=
  { rawbuf, respHeaderOff := parsed % 65536, normalizeKeys }

/-- The field, and the line break that closes the header, have room behind the staged fields. -/
def fits (s : Exchange) (keyLen valueLen : ℕ) : Bool :=
  s.respHeaderOff + s.respHeaderLen + (keyLen + valueLen + 3 + 2) ≤ s.rawbuf.len

/-- The common part of StageHeader and StageHeaderIntBase, which know the length of their
value in different ways. -/
def stage (s : Exchange) (key value : Bytes) (valueLen : ℕ) : Except Fault (Exchange × Bool) :=
  if !s.fits key.length valueLen then .ok ({ s with respErr := some .bufferFull }, false)
  else do
    let line := stagedLine s.normalizeKeys key value
    let rawbuf ← s.rawbuf.overwrite (s.respHeaderOff + s.respHeaderLen) line
    return ({ s with rawbuf, respHeaderLen := (s.respHeaderLen + line.length) % 65536 }, true)

def stageHeader (s : Exchange) (key value : Bytes) : Except Fault (Exchange × Bool) :=
  s.stage key value value.length

def stageHeaderIntBase (s : Exchange) (key : Bytes) (value base : ℤ) :
    Except Fault (Exchange × Bool) :=
  if base < 10 ∨ 36 < base then .ok (s, false)
  else do
    let valueLen ← intLen value base
    s.stage key (formatInt value base.toNat) valueLen

def stageHeaderInt (s : Exchange) (key : Bytes) (value : ℤ) : Except Fault (Exchange × Bool) :=
  s.stageHeaderIntBase key value 10

/-- A line that does not fit in respTopBuf is an index out of its range. -/
def stageStatus (s : Exchange) (code : ℤ) : Except Fault Exchange :=
  if 1000 ≤ code then .ok s
  else if code = 200 then .ok { s with respTop := text "HTTP/1.1 200 OK\r\n" }
  else if (statusLine code).length ≤ respTopBufLen then
    .ok { s with respTop := statusLine code }
  else .error .sliceBounds

def send (s : Exchange) (data : Bytes) (w : Write) : Exchange × ℕ :=
  ({ s with rw := (s.rw.write data w).1, respErr := w.err }, (s.rw.write data w).2)

/-- The staged fields and a line break, which may lie beyond the length of the buffer but
not its capacity. -/
def closeHeader (s : Exchange) : Except Fault (Exchange × Bytes) :=
  if h : s.respHeaderOff + s.respHeaderLen + 2 ≤ s.rawbuf.mem.length then
    let mem := blit s.rawbuf.mem (s.respHeaderOff + s.respHeaderLen) crlf
    .ok ({ s with
            rawbuf := { s.rawbuf with
              mem
              fits := by rw [length_blit _ _ _ (by omega)]; exact s.rawbuf.fits } },
      Regions.read mem ⟨s.respHeaderOff, s.respHeaderLen + 2⟩)
  else .error .sliceBounds

def defaultStatus (s : Exchange) : Except Fault Exchange :=
  if s.respTop = [] then s.stageStatus 200 else .ok s

def flushFields (s : Exchange) (w : Write) : Except Fault (Exchange × ℕ) := do
  let (s, headers) ← s.closeHeader
  return s.send headers w

/-- The writes are those of the status line and of the fields. The error returned is the one
kept in respErr. -/
def flushHeader (s : Exchange) (w₁ w₂ : Write) : Except Fault (Exchange × ℕ) :=
  if s.respErr ≠ none ∨ s.headerWritten then .ok (s, 0)
  else do
    let s ← s.defaultStatus
    let (s, ng) := { s with headerWritten := true }.send s.respTop w₁
    if s.respErr ≠ none then return (s, ng)
    let (s, ng2) ← s.flushFields w₂
    return (s, ng + ng2)

def flushIfNeeded (s : Exchange) (w₁ w₂ : Write) : Except Fault Exchange :=
  if s.headerWritten then .ok s else (s.flushHeader w₁ w₂).map Prod.fst

def writeBody (s : Exchange) (buf : Bytes) (w₁ w₂ w₃ : Write) : Except Fault (Exchange × ℕ) :=
  if s.respErr ≠ none then .ok (s, 0)
  else do
    let s ← s.flushIfNeeded w₁ w₂
    if s.respErr ≠ none ∨ buf = [] then return (s, 0)
    return s.send buf w₃

end Exchange

open Exchange

inductive Action where
  | stageHeader (key value : Bytes)
  | stageHeaderInt (key : Bytes) (value : ℤ)
  | stageStatus (code : Int64)
  | flushHeader (w₁ w₂ : Write)
  | writeBody (buf : Bytes) (w₁ w₂ w₃ : Write)
deriving DecidableEq

def act (s : Exchange) : Action → Except Fault Exchange
  | .stageHeader key value => (s.stageHeader key value).map Prod.fst
  | .stageHeaderInt key value => (s.stageHeaderInt key value).map Prod.fst
  | .stageStatus code => s.stageStatus code.toInt
  | .flushHeader w₁ w₂ => (s.flushHeader w₁ w₂).map Prod.fst
  | .writeBody buf w₁ w₂ w₃ => (s.writeBody buf w₁ w₂ w₃).map Prod.fst

inductive ExchangeCall where
  | stageHeader (key value : Bytes)
  | stageHeaderInt (key : Bytes) (value : ℤ)
  | stageStatus (code : Int64)
  | writeHeader (code : Int64) (w₁ w₂ : Write)
  | flushHeader (w₁ w₂ : Write)
  | writeBody (buf : Bytes) (w₁ w₂ w₃ : Write)
  | respond (code : Int64) (contentType body : Bytes) (w₁ w₂ w₃ : Write)
deriving DecidableEq

def stageResponse (code : Int64) (contentType : Bytes) (bodyLen : ℕ) : List Action :=
  (if contentType = [] then [] else [.stageHeader (text "Content-Type") contentType]) ++
    [.stageHeaderInt (text "Content-Length") bodyLen,
      .stageHeader (text "Connection") (text "close"), .stageStatus code]

def ExchangeCall.actions : ExchangeCall → List Action
  | .stageHeader key value => [.stageHeader key value]
  | .stageHeaderInt key value => [.stageHeaderInt key value]
  | .stageStatus code => [.stageStatus code]
  | .writeHeader code w₁ w₂ => [.stageStatus code, .flushHeader w₁ w₂]
  | .flushHeader w₁ w₂ => [.flushHeader w₁ w₂]
  | .writeBody buf w₁ w₂ w₃ => [.writeBody buf w₁ w₂ w₃]
  | .respond code contentType body w₁ w₂ w₃ =>
    stageResponse code contentType body.length ++ [.writeBody body w₁ w₂ w₃]

section Calls

theorem length_normalizeRest (b : Bytes) : (normalizeRest b).length = b.length := by
  fun_induction normalizeRest b with
  | case1 | case2 => rfl
  | case3 d rest ih => simp [ih]
  | case4 c d rest _ ih => simpa using ih

theorem length_stagedLine (normalizeKeys : Bool) (key value : Bytes) :
    (stagedLine normalizeKeys key value).length = key.length + value.length + 3 := by
  have hkey : (if normalizeKeys then normalizeHeaderKey key else key).length = key.length := by
    split
    · cases key <;> simp [normalizeHeaderKey, length_normalizeRest]
    · rfl
  simp only [stagedLine, crlf, length_append, length_cons, length_nil, hkey]
  omega

theorem length_digits_le (base fuel : ℕ) : ∀ u k : ℕ,
    u < base ^ (k + 1) → (digits base fuel u).length ≤ k + 1 := by
  induction fuel with
  | zero =>
    intro u k _
    simp [digits]
  | succ fuel ih =>
  intro u k hu
  simp only [digits]
  split
  · simp
  rename_i hbig
  cases k with
  | zero =>
    rw [zero_add, pow_one] at hu
    exact absurd hu hbig
  | succ k =>
  have hdiv : u / base < base ^ (k + 1) := Nat.div_lt_of_lt_mul (by rwa [← pow_succ'])
  have := ih (u / base) k hdiv
  rw [length_append, length_singleton]
  omega

theorem length_statusText_le (code : ℤ) : (statusText code).length ≤ 31 := by
  have htable : ∀ p ∈ statusTexts, (text p.2).length ≤ 31 := by decide +kernel
  unfold statusText
  cases h : statusTexts.lookup code with
  | none => exact Nat.zero_le _
  | some t =>
    obtain ⟨before, after, hsplit, -⟩ := lookup_eq_some_iff.mp h
    exact htable (code, t) (by rw [hsplit]; simp)

theorem statusText_of_neg {code : ℤ} (h : code < 0) : statusText code = [] := by
  have htable : ∀ p ∈ statusTexts, 0 ≤ p.1 := by decide +kernel
  unfold statusText
  cases hl : statusTexts.lookup code with
  | none => rfl
  | some t =>
  obtain ⟨before, after, hsplit, -⟩ := lookup_eq_some_iff.mp hl
  have := htable (code, t) (by rw [hsplit]; simp)
  omega

theorem length_statusLine_le (code : Int64) (h : code.toInt < 1000) :
    (statusLine code.toInt).length ≤ respTopBufLen := by
  have htop : (text "HTTP/1.1 ").length = 9 := by decide +kernel
  simp only [statusLine, formatInt, crlf, length_append, length_cons, length_nil,
    htop, respTopBufLen]
  by_cases hneg : code.toInt < 0
  · have hlow := Int64.le_toInt code
    have hdigits := length_digits_le 10 code.toInt.natAbs code.toInt.natAbs 18 (by omega)
    rw [if_pos hneg, statusText_of_neg hneg]
    simp only [length_cons, length_nil]
    omega
  have hdigits := length_digits_le 10 code.toInt.natAbs code.toInt.natAbs 2 (by omega)
  have htext := length_statusText_le code.toInt
  rw [if_neg hneg]
  simp only [length_nil]
  omega

variable {s : Exchange}

theorem stageStatus_spec (s : Exchange) (code : Int64) : s.stageStatus code.toInt =
      .ok (if 1000 ≤ code.toInt then s else { s with respTop := statusLine code.toInt }) := by
  have hok : text "HTTP/1.1 200 OK\r\n" = statusLine 200 := by decide +kernel
  unfold stageStatus
  by_cases hbig : 1000 ≤ code.toInt
  · rw [if_pos hbig, if_pos hbig]
  rw [if_neg hbig, if_neg hbig]
  by_cases h200 : code.toInt = 200
  · rw [if_pos h200, h200, hok]
  · rw [if_neg h200, if_pos (length_statusLine_le code (by omega))]

theorem stage_full {key value : Bytes} {n : ℕ} (h : s.fits key.length n = false) :
    s.stage key value n = .ok ({ s with respErr := some .bufferFull }, false) := by
  unfold stage
  rw [h]
  rfl

theorem stage_fits {key value : Bytes} (h : s.fits key.length value.length) :
    ∃ rawbuf, s.stage key value value.length = .ok ({ s with
          rawbuf
          respHeaderLen := (s.respHeaderLen + (key.length + value.length + 3)) % 65536 }, true) ∧
      rawbuf.mem = blit s.rawbuf.mem (s.respHeaderOff + s.respHeaderLen)
        (stagedLine s.normalizeKeys key value) ∧ rawbuf.len = s.rawbuf.len := by
  have hroom : s.respHeaderOff + s.respHeaderLen +
      (stagedLine s.normalizeKeys key value).length ≤ s.rawbuf.len := by
    have hfit := of_decide_eq_true h
    rw [length_stagedLine]
    omega
  obtain ⟨b, hb, hmem, hlen⟩ := overwrite_spec s.rawbuf hroom
  refine ⟨b, ?_, hmem, hlen⟩
  simp only [stage, h, hb, length_stagedLine]
  rfl

theorem stageHeaderIntBase_eq (s : Exchange) (key : Bytes) (value : ℤ) {base : ℤ}
    (h : 10 ≤ base ∧ base ≤ 36) : s.stageHeaderIntBase key value base =
      s.stageHeader key (formatInt value base.toNat) := by
  have hlen := intLen_eq value (show legalBase base by simp [legalBase]; omega)
  unfold stageHeaderIntBase
  rw [if_neg (by omega), hlen]
  rfl

theorem stageHeaderInt_eq (s : Exchange) (key : Bytes) (value : ℤ) : s.stageHeaderInt key value =
      s.stage key (formatInt value 10) (formatInt value 10).length :=
  stageHeaderIntBase_eq s key value (by decide)

/-- A connection without a failure was given the data, and took all of it or failed within
it. -/
def Wrote (c c' : Conn) (err : Option RespErr) (data : Bytes) : Prop :=
  c'.afterFailure = c.afterFailure ∧
    ((err = none ∧ c'.failed = false ∧ c'.sent = c.sent ++ data) ∨
      (err ≠ none ∧ c'.failed = true ∧ ∃ taken, taken <+: data ∧ c'.sent = c.sent ++ taken))

theorem send_wrote (s : Exchange) (hok : s.rw.failed = false) (data : Bytes) (w : Write) :
    Wrote s.rw (s.send data w).1.rw (s.send data w).1.respErr data := by
  cases w with
  | done =>
    refine ⟨?_, .inl ⟨rfl, hok, rfl⟩⟩
    simp [send, Conn.write, Conn.take, hok]
  | fails n =>
    refine ⟨?_, .inr ⟨Option.some_ne_none _, rfl, data.take n, take_prefix n data, rfl⟩⟩
    simp [send, Conn.write, Conn.take, hok]

theorem Wrote.not_failed {c c' : Conn} {data : Bytes} (h : Wrote c c' none data) :
    c'.failed = false := by
  obtain ⟨-, ⟨-, hok, -⟩ | ⟨hne, -⟩⟩ := h
  · exact hok
  · exact absurd rfl hne

theorem Wrote.trans {c c₁ c₂ : Conn} {err : Option RespErr} {d₁ d₂ : Bytes}
    (h₁ : Wrote c c₁ none d₁) (h₂ : Wrote c₁ c₂ err d₂) : Wrote c c₂ err (d₁ ++ d₂) := by
  obtain ⟨hafter₁, ⟨-, -, hsent₁⟩ | ⟨hne, -⟩⟩ := h₁
  · obtain ⟨hafter₂, ⟨he, hok, hsent₂⟩ | ⟨he, hf, taken, hpre, hsent₂⟩⟩ := h₂
    · refine ⟨hafter₂.trans hafter₁, .inl ⟨he, hok, ?_⟩⟩
      rw [hsent₂, hsent₁, append_assoc]
    refine ⟨hafter₂.trans hafter₁, .inr ⟨he, hf, d₁ ++ taken, ?_, ?_⟩⟩
    · exact (prefix_append_right_inj d₁).mpr hpre
    · rw [hsent₂, hsent₁, append_assoc]
  · exact absurd rfl hne

theorem Wrote.stop {c c' : Conn} {err : Option RespErr} {d₁ : Bytes} (h : Wrote c c' err d₁)
    (he : err ≠ none) (d₂ : Bytes) : Wrote c c' err (d₁ ++ d₂) := by
  obtain ⟨hafter, ⟨hn, -⟩ | ⟨_, hf, taken, hpre, hsent⟩⟩ := h
  · exact absurd hn he
  · exact ⟨hafter, .inr ⟨he, hf, taken, hpre.trans (prefix_append d₁ d₂), hsent⟩⟩

structure Around (s s' : Exchange) : Prop where
  len : s'.rawbuf.len = s.rawbuf.len
  cap : s'.rawbuf.mem.length = s.rawbuf.mem.length
  outside : s'.rawbuf.mem.drop s.rawbuf.len = s.rawbuf.mem.drop s.rawbuf.len
  off : s'.respHeaderOff = s.respHeaderOff
  keys : s'.normalizeKeys = s.normalizeKeys

theorem Around.refl (s : Exchange) : Around s s := ⟨rfl, rfl, rfl, rfl, rfl⟩

theorem Around.trans {s s' s'' : Exchange} (h : Around s s') (h' : Around s' s'') :
    Around s s'' where
  len := h'.len.trans h.len
  cap := h'.cap.trans h.cap
  outside := by
    have := h'.outside
    rw [h.len] at this
    exact this.trans h.outside
  off := h'.off.trans h.off
  keys := h'.keys.trans h.keys

theorem Around.of_rawbuf {s s' : Exchange} (h : s'.rawbuf = s.rawbuf)
    (hoff : s'.respHeaderOff = s.respHeaderOff) (hkeys : s'.normalizeKeys = s.normalizeKeys) :
    Around s s' := ⟨by rw [h], by rw [h], by rw [h], hoff, hkeys⟩

theorem drop_blit {mem data : Bytes} {i n : ℕ} (h : i + data.length ≤ n) (hn : n ≤ mem.length) :
    (blit mem i data).drop n = mem.drop n := by
  apply ext_getElem?
  intro k
  rw [getElem?_drop, getElem?_drop]
  exact getElem?_blit_outside _ _ _ _ (by omega) (.inr (by omega))

theorem Around.of_blit {s s' : Exchange} {i : ℕ} {data : Bytes}
    (hmem : s'.rawbuf.mem = blit s.rawbuf.mem i data) (hlen : s'.rawbuf.len = s.rawbuf.len)
    (h : i + data.length ≤ s.rawbuf.len) (hoff : s'.respHeaderOff = s.respHeaderOff)
    (hkeys : s'.normalizeKeys = s.normalizeKeys) : Around s s' := by
  have hfits := s.rawbuf.fits
  refine ⟨hlen, ?_, ?_, hoff, hkeys⟩
  · rw [hmem, length_blit _ _ _ (by omega)]
  · rw [hmem, drop_blit h hfits]

theorem stage_around (s : Exchange) (key value : Bytes) :
    ∃ s', s.stageHeader key value = .ok (s', s.fits key.length value.length) ∧ Around s s' := by
  unfold stageHeader
  cases hfits : s.fits key.length value.length with
  | false => exact ⟨_, stage_full hfits, .of_rawbuf rfl rfl rfl⟩
  | true =>
  obtain ⟨b, hstage, hmem, hlen⟩ := stage_fits hfits
  have hroom := of_decide_eq_true hfits
  have hline := length_stagedLine s.normalizeKeys key value
  exact ⟨_, hstage, .of_blit hmem hlen (by omega) rfl rfl⟩

theorem closeHeader_spec (h : s.respHeaderOff + s.respHeaderLen + 2 ≤ s.rawbuf.len) :
    ∃ s', s.closeHeader = .ok (s', read s.rawbuf.mem ⟨s.respHeaderOff, s.respHeaderLen⟩ ++ crlf) ∧
      Around s s' ∧ s'.headerWritten = s.headerWritten ∧ s'.rw = s.rw := by
  have hfits := s.rawbuf.fits
  have hread : read (blit s.rawbuf.mem (s.respHeaderOff + s.respHeaderLen) crlf)
      ⟨s.respHeaderOff, s.respHeaderLen + 2⟩ =
      read s.rawbuf.mem ⟨s.respHeaderOff, s.respHeaderLen⟩ ++ crlf :=
    read_blit_extend _ _ _ crlf (h.trans hfits)
  simp only [closeHeader, dif_pos (h.trans hfits), hread]
  refine ⟨_, rfl, ?_, rfl, rfl⟩
  exact Around.of_blit rfl rfl h rfl rfl

theorem flushHeader_kept (h : s.respErr ≠ none ∨ s.headerWritten) (w₁ w₂ : Write) :
    s.flushHeader w₁ w₂ = .ok (s, 0) := if_pos h

def topLine (s : Exchange) : Bytes := if s.respTop = [] then statusLine 200 else s.respTop

theorem defaultStatus_spec (s : Exchange) :
    s.defaultStatus = .ok { s with respTop := topLine s } := by
  unfold defaultStatus topLine
  by_cases htop : s.respTop = []
  · rw [if_pos htop, if_pos htop]
    exact stageStatus_spec s 200
  · rw [if_neg htop, if_neg htop]

theorem flushFields_spec (hroom : s.respHeaderOff + s.respHeaderLen + 2 ≤ s.rawbuf.len)
    (hok : s.rw.failed = false) (w : Write) :
    ∃ s' n, s.flushFields w = .ok (s', n) ∧ s'.headerWritten = s.headerWritten ∧ Around s s' ∧
      s'.respErr = w.err ∧ Wrote s.rw s'.rw s'.respErr
        (read s.rawbuf.mem ⟨s.respHeaderOff, s.respHeaderLen⟩ ++ crlf) := by
  obtain ⟨s₁, hclose, haround, hwritten, hrw⟩ := closeHeader_spec hroom
  have hsend := send_wrote s₁ (by rw [hrw]; exact hok)
    (read s.rawbuf.mem ⟨s.respHeaderOff, s.respHeaderLen⟩ ++ crlf) w
  unfold flushFields
  rw [hclose]
  refine ⟨_, _, rfl, hwritten, haround.trans (Around.of_rawbuf rfl rfl rfl), rfl, ?_⟩
  rw [← hrw]
  exact hsend

theorem flushHeader_spec (herr : s.respErr = none) (hopen : s.headerWritten = false)
    (hok : s.rw.failed = false)
    (hroom : s.respHeaderOff + s.respHeaderLen + 2 ≤ s.rawbuf.len) (w₁ w₂ : Write) :
    ∃ s' n, s.flushHeader w₁ w₂ = .ok (s', n) ∧ s'.headerWritten ∧ Around s s' ∧
      (w₁ = .done → s'.respErr = w₂.err) ∧ Wrote s.rw s'.rw s'.respErr (topLine s ++
        (read s.rawbuf.mem ⟨s.respHeaderOff, s.respHeaderLen⟩ ++ crlf)) := by
  have hguard : ¬ (s.respErr ≠ none ∨ s.headerWritten = true) := by simp [herr, hopen]
  have hfirst :=
    send_wrote { s with respTop := topLine s, headerWritten := true } hok (topLine s) w₁
  simp only [flushHeader, if_neg hguard, defaultStatus_spec]
  cases w₁ with
  | fails n =>
    refine ⟨_, _, rfl, rfl, Around.of_rawbuf rfl rfl rfl, (nofun), ?_⟩
    exact hfirst.stop (Option.some_ne_none _) _
  | done =>
  obtain ⟨s', n, hflush, hwritten, haround, herr', hsecond⟩ := @flushFields_spec
    ({ s with respTop := topLine s, headerWritten := true }.send (topLine s) .done).1 hroom
    hfirst.not_failed w₂
  have hsent : Around s
      ({ s with respTop := topLine s, headerWritten := true }.send (topLine s) .done).1 :=
    Around.of_rawbuf rfl rfl rfl
  refine ⟨s', (topLine s).length + n, ?_, hwritten, hsent.trans haround, fun _ => herr',
    hfirst.trans hsecond⟩
  simp only [send, Write.err] at hflush
  simp only [ok_then, send, Write.err, hflush]
  rfl

theorem writeBody_kept (h : s.respErr ≠ none) (buf : Bytes) (w₁ w₂ w₃ : Write) :
    s.writeBody buf w₁ w₂ w₃ = .ok (s, 0) := if_pos h

theorem writeBody_written (herr : s.respErr = none) (hwritten : s.headerWritten)
    (buf : Bytes) (w₁ w₂ w₃ : Write) :
    s.writeBody buf w₁ w₂ w₃ = .ok (if buf = [] then (s, 0) else s.send buf w₃) := by
  have hkept : s.flushIfNeeded w₁ w₂ = .ok s := if_pos hwritten
  have hguard : ¬ s.respErr ≠ none := not_not.mpr herr
  simp only [writeBody, if_neg hguard, hkept, ok_then]
  by_cases hbuf : buf = []
  · rw [if_pos (.inr hbuf), if_pos hbuf]
    rfl
  · rw [if_neg (by simp [herr, hbuf]), if_neg hbuf]
    rfl

theorem writeBody_flushed {s₁ : Exchange} {n : ℕ} {w₁ w₂ : Write} (herr : s.respErr = none)
    (hopen : s.headerWritten = false) (h : s.flushHeader w₁ w₂ = .ok (s₁, n))
    (hwritten : s₁.headerWritten) (buf : Bytes) (w₃ : Write) :
    s.writeBody buf w₁ w₂ w₃ = s₁.writeBody buf w₁ w₂ w₃ := by
  have hneeded : s.flushIfNeeded w₁ w₂ = .ok s₁ := by
    simp only [flushIfNeeded, hopen, h]
    rfl
  have hkept : s₁.flushIfNeeded w₁ w₂ = .ok s₁ := if_pos hwritten
  have hguard : ¬ s.respErr ≠ none := not_not.mpr herr
  simp only [writeBody, if_neg hguard, hneeded, hkept, ok_then]
  by_cases hfailed : s₁.respErr ≠ none
  · rw [if_pos hfailed, if_pos (.inl hfailed)]
    rfl
  · rw [if_neg hfailed]

theorem writeBody_wrote (hwritten : s.headerWritten) {c : Conn} {sent : Bytes}
    (h : Wrote c s.rw s.respErr sent) (buf : Bytes) (w₁ w₂ w₃ : Write) :
    ∃ s' n, s.writeBody buf w₁ w₂ w₃ = .ok (s', n) ∧ s'.headerWritten ∧ Around s s' ∧
      Wrote c s'.rw s'.respErr (sent ++ buf) := by
  by_cases herr : s.respErr = none
  · rw [herr] at h
    rw [writeBody_written herr hwritten]
    by_cases hbuf : buf = []
    · rw [if_pos hbuf, hbuf, append_nil]
      refine ⟨s, 0, rfl, hwritten, .refl s, ?_⟩
      rw [herr]
      exact h
    · rw [if_neg hbuf]
      exact ⟨_, _, rfl, hwritten, Around.of_rawbuf rfl rfl rfl,
        h.trans (send_wrote s h.not_failed buf w₃)⟩
  · exact ⟨s, 0, writeBody_kept herr buf w₁ w₂ w₃, hwritten, .refl s, h.stop herr buf⟩

end Calls

end Lneto.ExchangeResponse
