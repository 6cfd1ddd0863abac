import Lneto.ByteSearch
import Lneto.KeyValues

/-!
HTTP/1 headers over a key-value store: the parser of a first line and of the
fields behind it, which can be resumed with more data, and the setters and
writers that build a header. All texts are regions of the store's buffer.
-/
namespace Lneto.HttpHeaders

open ByteSearch KeyValues Regions

inductive Err where
  | needMoreData
  | unsupported
  | emptyURI
  | longStatusCode
  | badStatusCode
  | invalidName
  | headerTooMany
  | bufferTooLarge
  | bufferExhausted
  | mangledBuffer
  | noProgress
  | alreadyParsed
  | unparsed
  | needMethodURI
  | badStatusCodeTxt
  | noProto
deriving DecidableEq, Repr

def lf : UInt8 := 10
def cr : UInt8 := 13
def space : UInt8 := 32
def tab : UInt8 := 9
def colon : UInt8 := 58
def crlf : Bytes := [cr, lf]
def strHTTP1 : Bytes := [72, 84, 84, 80, 47, 49, 46]
def strHTTP11 : Bytes := strHTTP1 ++ [49]
def headerConnection : Bytes := [67, 111, 110, 110, 101, 99, 116, 105, 111, 110]
def strClose : Bytes := [99, 108, 111, 115, 101]
def strKeepAlive : Bytes := [107, 101, 101, 112, 45, 97, 108, 105, 118, 101]

def protoIsV1 (s : Bytes) : Bool := s.take (min strHTTP1.length s.length) == strHTTP1

def view (start n : ℕ) : Region := ⟨tokint start, tokint n⟩

def skipLeadingCRLF (data : Bytes) : ℕ := (data.takeWhile fun c => c == lf || c == cr).length

/-- The line from an offset on without its end, and the offset behind it. -/
def scanLine (data : Bytes) (off : ℕ) : Bytes × ℕ :=
  let buf := data.drop off
  let buf := buf.take ((indexByte buf lf).getD buf.length)
  let off := off + buf.length
  (if buf.getLast? = some cr then buf.dropLast else buf,
    if off < data.length then off + 1 else off)

structure FirstLine where
  method : Region := {}
  requestTarget : Region := {}
  proto : Region := {}
  statusCode : Region := {}
  statusText : Region := {}
  off : ℕ
  noHTTP11 : Bool := false
  err : Option Err := none
deriving DecidableEq, Repr

def parseFirstLineRequest (data : Bytes) : FirstLine :=
  let start := skipLeadingCRLF data
  if indexByte (data.drop start) lf = none then { off := start, err := some .needMoreData }
  else
    let (b, off) := scanLine data start
    if b.length < 5 then { off, err := some .needMoreData }
    else
      let methodEnd := (indexByte b space).getD 0
      match indexByte (b.drop (methodEnd + 1)) space with
      | none =>
        -- no version at all is not a 1.x request line
        { off
          method := view start methodEnd
          requestTarget := view (start + methodEnd + 1) (b.length - (methodEnd + 1))
          noHTTP11 := true
          err := some .unsupported }
      | some 0 => { off, err := some .emptyURI }
      | some (n + 1) =>
        let reqURIEnd := n + 1 + methodEnd + 1
        let protoText := b.drop (reqURIEnd + 1)
        { off
          method := view start methodEnd
          requestTarget := view (start + methodEnd + 1) (n + 1)
          proto := view (start + reqURIEnd + 1) protoText.length
          noHTTP11 := !protoIsV1 protoText || protoText != strHTTP11
          err := if protoIsV1 protoText then none else some .unsupported }

def isDigit (c : UInt8) : Bool := !(decide (57 < c) || decide (c < 48))

def parseFirstLineResponse (data : Bytes) : FirstLine :=
  let start := skipLeadingCRLF data
  if indexByte (data.drop start) lf = none then { off := start, err := some .needMoreData }
  else
    let (b, off) := scanLine data start
    if b.length < 5 then { off, err := some .needMoreData }
    else
      match indexByte b space with
      | none => { off, err := some .needMoreData }
      | some protoEnd =>
        let protoText := b.take protoEnd
        if !protoIsV1 protoText then { off, noHTTP11 := true, err := some .unsupported }
        else
          let noHTTP11 := protoText != strHTTP11
          let rest := b.drop (protoEnd + 1)
          let codeEnd := (indexByte rest space).getD rest.length
          let code := rest.take codeEnd
          if 3 < code.length then { off, noHTTP11, err := some .longStatusCode }
          else if !code.all isDigit then { off, noHTTP11, err := some .badStatusCode }
          else
            { off
              noHTTP11
              statusCode := view (start + protoEnd + 1) codeEnd
              statusText :=
                if codeEnd < rest.length then
                  view (start + protoEnd + 1 + codeEnd + 1) (rest.length - (codeEnd + 1))
                else {} }

def parseFirstLine (asResponse : Bool) (data : Bytes) : FirstLine :=
  if asResponse then parseFirstLineResponse data else parseFirstLineRequest data

/-- Where a value from `n` on ends: behind the first newline that no blank follows, if a
byte follows it. -/
def valueEnd (buf : Bytes) : ℕ → ℕ → Option ℕ
  | 0, _ => none
  | fuel + 1, n =>
    match indexByte (buf.drop n) lf with
    | none => none
    | some nl =>
      if nl + n + 1 = buf.length then none
      else
        let n := n + nl + 1
        if buf[n]? = some space ∨ buf[n]? = some tab then valueEnd buf fuel n else some n

structure Scan where
  kv : Pair := {}
  off : ℕ
  err : Option Err := none
deriving DecidableEq, Repr

def next (data : Bytes) (off : ℕ) : Scan :=
  let buf := data.drop off
  if buf.take 2 = crlf then { off := off + 2 }
  else if buf.head? = some lf then { off := off + 1 }
  else
    match indexByte buf lf, indexByte buf colon with
    | none, _ => { off, err := some .needMoreData }
    | some _, none => { off, err := some .invalidName }
    | some x, some n =>
      if x < n then { off, err := some .invalidName }
      else if space ∈ buf.take n ∨ tab ∈ buf.take n then { off, err := some .invalidName }
      else
        let valueStart := n + 1 + ((buf.drop (n + 1)).takeWhile (· == space)).length
        match valueEnd buf buf.length valueStart with
        | none => { off, err := some .needMoreData }
        | some n' =>
          let stop := if valueStart < n' - 1 ∧ buf[n' - 2]? = some cr then n' - 2 else n' - 1
          { kv := { key := view off n, value := view (off + valueStart) (stop - valueStart) }
            off := off + n' }

structure Fields where
  kvs : List Pair
  off : ℕ
  err : Option Err
deriving DecidableEq, Repr

def fieldLoop (data : Bytes) (canAdd : ℕ → Bool) : ℕ → List Pair → ℕ → Fields
  | 0, kvs, off => { kvs, off, err := none }
  | fuel + 1, kvs, off =>
    let r := next data off
    if !r.kv.isValidHeader then { kvs, off := r.off, err := r.err }
    else if !canAdd kvs.length then { kvs, off := r.off, err := some .headerTooMany }
    else fieldLoop data canAdd fuel (kvs ++ [r.kv]) r.off

def lower (c : UInt8) : UInt8 := if 65 ≤ c ∧ c ≤ 90 then c + 32 else c

def equalFoldASCII (a b : Bytes) : Bool := a.length == b.length && a.map lower == b.map lower

def isOWS (c : UInt8) : Bool := c == space || c == tab

def trimOWS (b : Bytes) : Bytes := ((b.dropWhile isOWS).reverse.dropWhile isOWS).reverse

/-- A list separated by commas has the token. -/
def hasToken (token : Bytes) : ℕ → Bytes → Bool
  | 0, _ => false
  | fuel + 1, value =>
    if value = [] then false
    else
      match indexByte value 44 with
      | some comma =>
        equalFoldASCII (trimOWS (value.take comma)) token ||
          hasToken token fuel (value.drop (comma + 1))
      | none => equalFoldASCII (trimOWS value) token

def appendHeaderLine (dst key value : Bytes) : Bytes :=
  dst ++ key ++ [colon, space] ++ value ++ crlf

structure HeaderV1 where
  kv : KvBuffer := {}
  off : ℕ := 0
  method : Region := {}
  requestTarget : Region := {}
  proto : Region := {}
  statusCode : Region := {}
  statusText : Region := {}
deriving DecidableEq, Repr

namespace HeaderV1

def data (h : HeaderV1) : Bytes := h.kv.buf.mem.take h.kv.buf.len

/-- Nothing for the panic on a small buffer that may not grow. -/
def reset (h : HeaderV1) (buf : Option Slice) (numHeaderCapacity : ℕ) : Option HeaderV1 :=
  let kv := h.kv.reset buf numHeaderCapacity
  if kv.flags.noBufferGrow ∧ kv.buf.mem.length < 32 then none else some { kv }

def readFromBytes (h : HeaderV1) (buf : Bytes) (slack : ℕ) : HeaderV1 × Option Err :=
  if buf.length = 0 then (h, some .noProgress)
  else if h.kv.flags.mangledBuffer then (h, some .mangledBuffer)
  else if maxBufLen < buf.length + h.kv.buf.mem.length then (h, some .bufferExhausted)
  else if h.kv.free < buf.length ∧ h.kv.flags.noBufferGrow then (h, some .bufferExhausted)
  else ({ h with kv := { h.kv with buf := h.kv.buf.append buf slack } }, none)

def parseFirstLine (h : HeaderV1) (asResponse : Bool) : HeaderV1 × Option Err :=
  if maxBufLen < h.data.length then (h, some .bufferTooLarge)
  else
    let r := HttpHeaders.parseFirstLine asResponse h.data
    let flags := { h.kv.flags with noHTTP11 := h.kv.flags.noHTTP11 || r.noHTTP11 }
    let h := { h with off := r.off, kv := { h.kv with flags } }
    if asResponse then ({ h with statusCode := r.statusCode, statusText := r.statusText }, r.err)
    else ({ h with method := r.method, requestTarget := r.requestTarget, proto := r.proto }, r.err)

/-- Whether a table of `n` fields takes another; append allocates only if the table may
grow. -/
def canAdd (h : HeaderV1) (n : ℕ) : Bool := decide (n < h.kv.kvCap) || !h.kv.flags.noBufferGrow

def parseNextHeaders (h : HeaderV1) : HeaderV1 × Option Err :=
  let f := fieldLoop h.data h.canAdd (h.data.length + 1) h.kv.kvs h.off
  let kv := { h.kv with kvs := f.kvs, kvCap := max h.kv.kvCap f.kvs.length }
  let h := { h with kv, off := f.off }
  match f.err with
  | some e => ({ h with kv := { kv with flags := { kv.flags with connClose := true } } }, some e)
  | none =>
    ({ h with kv := { kv with flags := { kv.flags with doneParsingHeader := true } } }, none)

def parse (h : HeaderV1) (asResponse : Bool) : HeaderV1 × Option Err :=
  match h.parseFirstLine asResponse with
  | (h, some e) => (h, some e)
  | (h, none) => h.parseNextHeaders

def parseBytes (h : HeaderV1) (asResponse : Bool) (b : Bytes) (slack : ℕ) :
    Option (HeaderV1 × Option Err) := do
  let h ← h.reset none 0
  match h.readFromBytes b slack with
  | (h, some e) => return (h, some e)
  | (h, none) => return h.parse asResponse

/-- It needs more data if that is the error. -/
def tryParse (h : HeaderV1) (asResponse : Bool) : HeaderV1 × Option Err :=
  if h.kv.flags.doneParsingHeader then (h, some .alreadyParsed)
  else if h.kv.flags.mangledBuffer then (h, some .mangledBuffer)
  else if (asResponse && h.statusCode.len == 0) || (!asResponse && h.requestTarget.start == 0) then
    h.parse asResponse
  else h.parseNextHeaders

def bufferParsed (h : HeaderV1) : ℕ :=
  if h.kv.flags.mangledBuffer || h.kv.flags.oomReached then 0 else h.off

def body (h : HeaderV1) : Bytes × Option Err :=
  if h.kv.flags.mangledBuffer then ([], some .mangledBuffer)
  else if h.kv.flags.doneParsingHeader then (h.data.drop h.off, none)
  else ([], some .unparsed)

def getNonEmptyValue (h : HeaderV1) (r : Region) : Bytes := if r.len = 0 then [] else h.kv.token r

def status (h : HeaderV1) : Bytes × Bytes :=
  if h.statusCode.len = 0 then ([], []) else (h.kv.token h.statusCode, h.kv.token h.statusText)

def fields (h : HeaderV1) : List (Bytes × Bytes) :=
  (h.kv.kvs.filter Pair.isValidHeader).map fun p => (h.kv.token p.key, h.kv.valueOf p)

def getFold (h : HeaderV1) (key : Bytes) : Bytes :=
  ((h.kv.kvs.find? fun p => p.isValid && equalFoldASCII key (h.kv.token p.key)).map
    h.kv.valueOf).getD []

def hasConnectionToken (h : HeaderV1) (token : Bytes) : Bool :=
  let value := h.getFold headerConnection
  hasToken token (value.length + 1) value

def connectionClose (h : HeaderV1) : HeaderV1 × Bool :=
  let closed := h.kv.flags.connClose || h.hasConnectionToken strClose ||
    (h.kv.flags.noHTTP11 && !h.hasConnectionToken strKeepAlive)
  (if closed then { h with kv := { h.kv with flags := { h.kv.flags with connClose := true } } }
    else h, closed)

def add (h : HeaderV1) (key value : Bytes) (slack kvSlack : ℕ) : Except Fault HeaderV1 := do
  let (kv, _) ← h.kv.appendPair key value slack kvSlack
  return { h with kv }

def set (h : HeaderV1) (key value : Bytes) (slack kvSlack : ℕ) :
    Except Fault (HeaderV1 × Bool) := do
  let (kv, enoughSpace) ← h.kv.set key value slack kvSlack
  return ({ h with kv }, enoughSpace)

def setMethod (h : HeaderV1) (method : Bytes) (slack : ℕ) : Except Fault HeaderV1 := do
  let (kv, r) ← h.kv.reuseOrAppend h.method method slack
  return { h with kv, method := r }

def setRequestTarget (h : HeaderV1) (requestTarget : Bytes) (slack : ℕ) :
    Except Fault HeaderV1 := do
  let (kv, r) ← h.kv.reuseOrAppend h.requestTarget requestTarget slack
  return { h with kv, requestTarget := r }

def setProtocol (h : HeaderV1) (protocol : Bytes) (slack : ℕ) : Except Fault HeaderV1 := do
  let (kv, r) ← h.kv.reuseOrAppend h.proto protocol slack
  return { h with kv, proto := r }

def setStatus (h : HeaderV1) (code statusText : Bytes) (slack slack' : ℕ) :
    Except Fault HeaderV1 := do
  let kv := { h.kv with flags := { h.kv.flags with statusSet := true } }
  let (kv, c) ← kv.reuseOrAppend h.statusCode code slack
  let (kv, t) ← kv.reuseOrAppend h.statusText statusText slack'
  return { h with kv, statusCode := c, statusText := t }

def appendHeaders (h : HeaderV1) (dst : Bytes) : Bytes :=
  h.fields.foldl (fun dst e => appendHeaderLine dst e.1 e.2) dst

def appendRequest (h : HeaderV1) (dst : Bytes) : Except Err Bytes :=
  let proto := h.getNonEmptyValue h.proto
  if h.kv.flags.oomReached then .error .bufferExhausted
  else if h.requestTarget.len = 0 ∨ h.method.len = 0 then .error .needMethodURI
  else if proto.length = 0 then .error .noProto
  else
    let dst := dst ++ h.getNonEmptyValue h.method ++ [space] ++
      h.getNonEmptyValue h.requestTarget ++ [space] ++ proto ++ crlf
    .ok (h.appendHeaders dst ++ crlf)

def appendResponseNoHeaders (h : HeaderV1) (dst : Bytes) : Except Err Bytes :=
  let proto := h.getNonEmptyValue h.proto
  if h.kv.flags.oomReached then .error .bufferExhausted
  else if h.statusCode.len = 0 ∨ h.statusText.len = 0 then .error .badStatusCodeTxt
  else if proto.length = 0 then .error .noProto
  else .ok (dst ++ proto ++ [space] ++ h.status.1 ++ [space] ++ h.status.2 ++ crlf)

def appendResponse (h : HeaderV1) (dst : Bytes) : Except Err Bytes := do
  let dst ← h.appendResponseNoHeaders dst
  return h.appendHeaders dst ++ crlf

end HeaderV1

end Lneto.HttpHeaders
