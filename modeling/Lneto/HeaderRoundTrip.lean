import Lneto.HeaderBuild
import Lneto.HeaderOutcomes

/-!
A header that is written and parsed again. Each line is read back as the texts
it was written from, wherever it stands, so the parser ends behind the last line
with the first line and the live pairs of the header.
-/
namespace Lneto.HttpHeaders

open ByteSearch GuardedRuns KeyValues Regions List Option Outcome

def fieldText (e : Bytes × Bytes) : Bytes := e.1 ++ [colon, space] ++ e.2 ++ crlf

def fieldTexts (es : List (Bytes × Bytes)) : Bytes := es.flatMap fieldText

theorem appendHeaders_eq (h : HeaderV1) (dst : Bytes) :
    h.appendHeaders dst = dst ++ fieldTexts h.fields := by
  unfold HeaderV1.appendHeaders fieldTexts
  generalize h.fields = es
  induction es generalizing dst with
  | nil => exact (append_nil _).symm
  | cons e es ih =>
    rw [foldl_cons, ih, flatMap_cons]
    simp [appendHeaderLine, fieldText]

theorem tokint_small {n : ℕ} (h : n ≤ maxBufLen) : tokint n = n :=
  Nat.mod_eq_of_lt (by unfold maxBufLen at h; omega)

theorem view_small {start n : ℕ} (h : start + n ≤ maxBufLen) : view start n = ⟨start, n⟩ := by
  rw [view, tokint_small (by omega), tokint_small (by omega)]

theorem read_middle (pre text post : Bytes) :
    read (pre ++ text ++ post) ⟨pre.length, text.length⟩ = text := by
  unfold Regions.read
  simp

def fieldPair (off : ℕ) (e : Bytes × Bytes) : Pair :=
  { key := ⟨off, e.1.length⟩, value := ⟨off + e.1.length + 2, e.2.length⟩ }

theorem valueEnd_line {front value rest : Bytes} {c : UInt8} (hv : lf ∉ value)
    (hc : c ≠ space ∧ c ≠ tab) {fuel : ℕ} :
    valueEnd (front ++ (value ++ cr :: lf :: c :: rest)) (fuel + 1) front.length =
      some (front.length + value.length + 2) := by
  have hlf : indexByte (value ++ cr :: lf :: c :: rest) lf = some (value.length + 1) := by
    have := @indexByte_split _ _ (value ++ [cr]) lf
      (by rw [mem_append, mem_singleton]; exact fun h => h.elim hv (by decide)) (c :: rest)
    simpa using this
  have hnext : (front ++ (value ++ cr :: lf :: c :: rest))[front.length + (value.length + 1) + 1]? =
      some c := by
    rw [getElem?_append_right (by omega), getElem?_append_right (by omega)]
    rw [show front.length + (value.length + 1) + 1 - front.length - value.length = 2 by omega]
    rfl
  unfold valueEnd
  rw [drop_left, hlf]
  simp only
  rw [if_neg (by simp; omega), hnext, if_neg (by simp [hc.1, hc.2])]
  congr 1

theorem trim_line {value rest : Bytes} (hhead : value.head? ≠ some space) :
    ((space :: (value ++ cr :: rest)).takeWhile (· == space)).length = 1 := by
  rw [takeWhile_cons_of_pos (by simp)]
  cases value with
  | nil => rfl
  | cons v value =>
  have : v ≠ space := fun heq => hhead (heq ▸ rfl)
  rw [cons_append, takeWhile_cons_of_neg (by simpa using this)]
  rfl

theorem next_fieldText {pre rest : Bytes} {e : Bytes × Bytes} {c : UInt8} (hk : CleanKey e.1)
    (hv : CleanValue e.2) (hc : c ≠ space ∧ c ≠ tab)
    (hmax : (pre ++ fieldText e ++ c :: rest).length ≤ maxBufLen) :
    next (pre ++ fieldText e ++ c :: rest) pre.length =
      { kv := fieldPair pre.length e, off := pre.length + (fieldText e).length } := by
  obtain ⟨key, value⟩ := e
  obtain ⟨hne, hkey⟩ := hk
  obtain ⟨hhead, hvalue⟩ := hv
  simp only at hne hkey hhead hvalue
  have hlen : (fieldText (key, value)).length = key.length + 2 + value.length + 2 := by
    simp [fieldText, crlf]
    omega
  obtain ⟨buf, hdef⟩ : ∃ buf, buf = key ++ colon :: (space :: (value ++ cr :: lf :: c :: rest)) :=
    ⟨_, rfl⟩
  have hbuf : (pre ++ fieldText (key, value) ++ c :: rest).drop pre.length = buf := by
    simp [hdef, fieldText, crlf]
  rw [length_append, length_append, hlen] at hmax
  simp only [length_cons] at hmax hlen
  have hcolon : indexByte buf colon = some key.length := by
    rw [hdef, indexByte_split fun hin => (hkey _ hin).2.2.1 rfl]
  have hlf : ∃ x, indexByte buf lf = some x ∧ key.length ≤ x := by
    have hnone : indexByte key lf = none := indexByte_eq_none.2 fun hin => (hkey _ hin).2.2.2.2 rfl
    cases hrest : indexByte (colon :: (space :: (value ++ cr :: lf :: c :: rest))) lf with
    | none => exact absurd (by simp) (indexByte_eq_none.1 hrest)
    | some x =>
    refine ⟨x + key.length, ?_, by omega⟩
    rw [hdef, indexByte_append, hnone, hrest]
    rfl
  obtain ⟨x, hx, hxle⟩ := hlf
  have hstart : buf.drop (key.length + 1) = space :: (value ++ cr :: lf :: c :: rest) := by
    rw [hdef, drop_append, drop_of_length_le (by omega), nil_append,
      show key.length + 1 - key.length = 1 by omega]
    rfl
  have hend : valueEnd buf buf.length (key.length + 1 + 1) =
      some (key.length + 2 + value.length + 2) := by
    have hsplit : buf = (key ++ [colon, space]) ++ (value ++ cr :: lf :: c :: rest) :=
      by simp [hdef]
    have hfront : (key ++ [colon, space]).length = key.length + 2 := by simp
    obtain ⟨fuel, hfuel⟩ : ∃ fuel, buf.length = fuel + 1 :=
      ⟨_, (Nat.succ_pred_eq_of_pos (by simp [hdef])).symm⟩
    rw [hfuel, hsplit, show key.length + 1 + 1 = (key ++ [colon, space]).length by rw [hfront],
      valueEnd_line (fun hin => (hvalue _ hin).2 rfl) hc, hfront]
  have hcr : buf[key.length + 2 + value.length]? = some cr := by
    rw [hdef, getElem?_append_right (by omega),
      show key.length + 2 + value.length - key.length = value.length + 1 + 1 by omega,
      getElem?_cons_succ, getElem?_cons_succ, getElem?_append_right (by omega),
      Nat.sub_self]
    rfl
  have htake : buf.take key.length = key := by
    rw [hdef]
    exact take_left
  obtain ⟨k, key', hcons⟩ := exists_cons_of_ne_nil hne
  have hfirst := hkey k (by rw [hcons]; exact mem_cons_self)
  unfold next
  simp only [hbuf]
  rw [if_neg, if_neg, hx, hcolon]
  · simp only
    rw [if_neg (by omega), htake, if_neg]
    · rw [hstart, trim_line hhead, hend]
      have hstop : key.length + 1 + 1 < key.length + 2 + value.length + 2 - 1 ∧
          buf[key.length + 2 + value.length + 2 - 2]? = some cr := by
        refine ⟨by omega, ?_⟩
        exact hcr
      simp only
      rw [if_pos hstop, hlen, fieldPair, view_small (by omega), view_small (by omega),
        show key.length + 2 + value.length + 2 - 2 - (key.length + 1 + 1) = value.length by omega,
        show pre.length + (key.length + 1 + 1) = pre.length + key.length + 2 by omega]
    rintro (hin | hin)
    · exact (hkey _ hin).1 rfl
    · exact (hkey _ hin).2.1 rfl
  · rw [hdef, hcons]
    intro heq
    exact hfirst.2.2.2.2 (some.inj heq)
  · rw [hdef, hcons]
    intro heq
    exact hfirst.2.2.2.1 (cons.inj heq).1

theorem next_crlf (pre : Bytes) : next (pre ++ crlf) pre.length = { off := pre.length + 2 } := by
  unfold next
  simp only [drop_left]
  rw [if_pos (by rfl)]

def fieldPairs (off : ℕ) : List (Bytes × Bytes) → List Pair
  | [] => []
  | e :: es => fieldPair off e :: fieldPairs (off + (fieldText e).length) es

theorem fieldsFrom_texts {canAdd : ℕ → Bool} : ∀ (es : List (Bytes × Bytes)) (pre : Bytes)
    (kvs : List Pair), (∀ e ∈ es, CleanKey e.1 ∧ CleanValue e.2) → 0 < pre.length →
    (pre ++ fieldTexts es ++ crlf).length ≤ maxBufLen →
    (∀ n < kvs.length + es.length, canAdd n = true) →
    fieldsFrom (pre ++ fieldTexts es ++ crlf) canAdd kvs pre.length =
      { kvs := kvs ++ fieldPairs pre.length es
        off := (pre ++ fieldTexts es ++ crlf).length
        err := none } := by
  intro es
  induction es with
  | nil =>
    intro pre kvs _ _ _ _
    have hdata : pre ++ fieldTexts [] ++ crlf = pre ++ crlf := by simp [fieldTexts]
    rw [hdata, fieldsFrom_stop (by rw [next_crlf]; rfl), next_crlf]
    simp [fieldPairs, crlf]
  | cons e es ih =>
  intro pre kvs hclean hpos hmax hadd
  obtain ⟨hk, hv⟩ := hclean e mem_cons_self
  -- the byte behind the line starts the next key or the empty line
  obtain ⟨c, rest, hrest, hc⟩ : ∃ c rest, fieldTexts es ++ crlf = c :: rest ∧
      c ≠ space ∧ c ≠ tab := by
    cases es with
    | nil => exact ⟨cr, [lf], rfl, by decide, by decide⟩
    | cons e' es' =>
    obtain ⟨hk', -⟩ := hclean e' (mem_cons_of_mem _ mem_cons_self)
    obtain ⟨c, key', hcons⟩ := exists_cons_of_ne_nil hk'.1
    have hfirst := hk'.2 c (by rw [hcons]; exact mem_cons_self)
    refine ⟨c, key' ++ [colon, space] ++ e'.2 ++ crlf ++ fieldTexts es' ++ crlf, ?_, hfirst.1,
      hfirst.2.1⟩
    simp [fieldTexts, fieldText, hcons]
  have hdata : pre ++ fieldTexts (e :: es) ++ crlf = pre ++ fieldText e ++ c :: rest := by
    rw [← hrest, fieldTexts, flatMap_cons]
    simp [fieldTexts]
  have hsame : pre ++ fieldTexts (e :: es) ++ crlf =
      (pre ++ fieldText e) ++ fieldTexts es ++ crlf := by
    simp [fieldTexts]
  have hnext := next_fieldText hk hv hc (by rw [← hdata]; exact hmax)
  rw [← hdata] at hnext
  have hvalid : (fieldPair pre.length e).isValidHeader := decide_eq_true hpos
  rw [fieldsFrom_take (by rw [hnext]; exact hvalid) (hadd _ (by simp)), hnext]
  have hlen : (pre ++ fieldText e).length = pre.length + (fieldText e).length := length_append
  have hrec := ih (pre ++ fieldText e) (kvs ++ [fieldPair pre.length e])
    (fun e' he' => hclean e' (mem_cons_of_mem _ he')) (by omega)
    (by rw [← hsame]; exact hmax) (fun n hn => hadd n (by simp at hn ⊢; omega))
  rw [hsame, ← hlen, hrec, hlen]
  simp [fieldPairs]

theorem fieldPairs_read : ∀ (es : List (Bytes × Bytes)) (pre post : Bytes),
    (fieldPairs pre.length es).map (fun p => (read (pre ++ fieldTexts es ++ post) p.key,
      valueIn (pre ++ fieldTexts es ++ post) p)) = es := by
  intro es
  induction es with
  | nil => exact fun _ _ => rfl
  | cons e es ih =>
  intro pre post
  have hsame : pre ++ fieldTexts (e :: es) ++ post =
      (pre ++ fieldText e) ++ fieldTexts es ++ post := by
    simp [fieldTexts]
  have hlen : (pre ++ fieldText e).length = pre.length + (fieldText e).length := length_append
  rw [fieldPairs, map_cons]
  congr 1
  · have hkey := read_middle pre e.1 ([colon, space] ++ e.2 ++ crlf ++ fieldTexts es ++ post)
    have hvalue := read_middle (pre ++ e.1 ++ [colon, space]) e.2 (crlf ++ fieldTexts es ++ post)
    have h1 : pre ++ fieldTexts (e :: es) ++ post =
        pre ++ e.1 ++ ([colon, space] ++ e.2 ++ crlf ++ fieldTexts es ++ post) := by
      rw [hsame, fieldText]
      simp
    have h2 : pre ++ fieldTexts (e :: es) ++ post =
        pre ++ e.1 ++ [colon, space] ++ e.2 ++ (crlf ++ fieldTexts es ++ post) := by
      rw [hsame, fieldText]
      simp
    have hstart : (pre ++ e.1 ++ [colon, space]).length = pre.length + e.1.length + 2 := by
      rw [length_append, length_append]
      rfl
    rw [← h1] at hkey
    rw [← h2, hstart] at hvalue
    exact Prod.ext hkey hvalue
  · rw [hsame, ← hlen]
    exact ih (pre ++ fieldText e) post

def Plain (text : Bytes) : Prop := ∀ c ∈ text, c ≠ cr ∧ c ≠ lf

def Token (text : Bytes) : Prop := text ≠ [] ∧ Plain text ∧ space ∉ text

def Version (text : Bytes) : Prop := strHTTP1 <+: text ∧ Plain text ∧ space ∉ text

theorem Version.ne_nil {text : Bytes} (h : Version text) : text ≠ [] := by
  rintro rfl
  have := h.1.length_le
  simp [strHTTP1] at this

theorem Version.protoIsV1 {text : Bytes} (h : Version text) : protoIsV1 text := by
  obtain ⟨rest, rfl⟩ := h.1
  unfold HttpHeaders.protoIsV1
  rw [Nat.min_eq_left (by rw [length_append]; omega), take_left]
  exact beq_self_eq_true _

theorem scanLine_line {line : Bytes} (hline : Plain line) (hne : line ≠ []) (rest : Bytes) :
    skipLeadingCRLF (line ++ crlf ++ rest) = 0 ∧
      indexByte ((line ++ crlf ++ rest).drop 0) lf ≠ none ∧
      scanLine (line ++ crlf ++ rest) 0 = (line, line.length + 2) := by
  have hcons : line ++ crlf ++ rest = (line ++ [cr]) ++ lf :: rest := by simp [crlf]
  have hlf : indexByte (line ++ crlf ++ rest) lf = some (line.length + 1) := by
    rw [hcons, indexByte_split]
    · rw [length_append]
      rfl
    · rw [mem_append, mem_singleton]
      exact fun h => h.elim (fun hin => (hline _ hin).2 rfl) (by decide)
  refine ⟨?_, ?_, ?_⟩
  · obtain ⟨c, line', rfl⟩ := exists_cons_of_ne_nil hne
    obtain ⟨h1, h2⟩ := hline c mem_cons_self
    unfold skipLeadingCRLF
    rw [cons_append, cons_append, takeWhile_cons_of_neg (by simp [h1, h2])]
    rfl
  · rw [drop_zero, hlf]
    exact some_ne_none _
  have htake : (line ++ crlf ++ rest).take (line.length + 1) = line ++ [cr] := by
    rw [hcons]
    exact take_left' (by simp)
  unfold scanLine
  simp only [drop_zero, hlf, getD_some, htake]
  rw [if_pos (by simp), dropLast_concat, if_pos (by simp [crlf])]
  simp

theorem three_parts {x y z : Bytes} (hx : Plain x ∧ space ∉ x) (hy : Plain y ∧ space ∉ y)
    (hz : Plain z) {line : Bytes} (hline : line = x ++ [space] ++ y ++ [space] ++ z) :
    Plain line ∧ line.length = x.length + 1 + y.length + 1 + z.length ∧
      indexByte line space = some x.length ∧ line.drop (x.length + 1) = y ++ space :: z ∧
      indexByte (y ++ space :: z) space = some y.length := by
  have hsplit : line = x ++ space :: (y ++ space :: z) := by simp [hline]
  refine ⟨?_, ?_, by rw [hsplit, indexByte_split hx.2], ?_, indexByte_split hy.2 _⟩
  · intro c hc
    simp only [hline, mem_append, mem_singleton] at hc
    rcases hc with (((hc | rfl) | hc) | rfl) | hc
    · exact hx.1 c hc
    · decide
    · exact hy.1 c hc
    · decide
    · exact hz c hc
  · simp only [hline, length_append, length_singleton]
  · rw [show line = (x ++ [space]) ++ (y ++ space :: z) by simp [hline]]
    exact drop_left' (by simp)

theorem request_line {method target proto : Bytes} (hm : Token method) (ht : Token target)
    (hp : Version proto) {rest : Bytes}
    (hmax : (method ++ [space] ++ target ++ [space] ++ proto ++ crlf ++ rest).length ≤ maxBufLen) :
    parseFirstLine false (method ++ [space] ++ target ++ [space] ++ proto ++ crlf ++ rest) =
      { method := ⟨0, method.length⟩
        requestTarget := ⟨(method ++ [space]).length, target.length⟩
        proto := ⟨(method ++ [space] ++ target ++ [space]).length, proto.length⟩
        off := (method ++ [space] ++ target ++ [space] ++ proto ++ crlf).length
        noHTTP11 := proto != strHTTP11 } := by
  have hv1 := hp.protoIsV1
  have hlenp : 7 ≤ proto.length := hp.1.length_le
  generalize hline : method ++ [space] ++ target ++ [space] ++ proto = line at hmax ⊢
  obtain ⟨hplain, hlen, hmethod, hdrop, htarget⟩ := three_parts hm.2 ht.2 hp.2.1 hline.symm
  obtain ⟨hskip, hfound, hscan⟩ := scanLine_line hplain (by simp [← hline]) rest
  have hposm := length_pos_iff.2 hm.1
  obtain ⟨n, hn⟩ : ∃ n, target.length = n + 1 :=
    ⟨target.length - 1, by have := length_pos_iff.2 ht.1; omega⟩
  rw [hn] at htarget
  have hproto : line.drop (n + 1 + method.length + 1 + 1) = proto := by
    rw [← hline]
    exact drop_left' (by simp only [length_append, length_singleton]; omega)
  rw [length_append, length_append, hlen] at hmax
  simp only [parseFirstLine, Bool.false_eq_true, if_false, parseFirstLineRequest, hskip,
    if_neg hfound, hscan, hmethod, getD_some, hdrop, htarget, hproto, hv1]
  rw [if_neg (by omega), view_small (by omega), view_small (by omega), view_small (by omega)]
  simp [hn, crlf]
  omega

def StatusCode (text : Bytes) : Prop := text ≠ [] ∧ text.length ≤ 3 ∧ text.all isDigit = true

theorem StatusCode.clean {text : Bytes} (h : StatusCode text) : Plain text ∧ space ∉ text := by
  have hall := all_eq_true.1 h.2.2
  have hno : ∀ c, isDigit c = false → c ∉ text := by
    intro c hc hin
    rw [hall c hin] at hc
    cases hc
  refine ⟨fun c hc => ⟨?_, ?_⟩, hno space (by decide)⟩
  · rintro rfl
    exact hno cr (by decide) hc
  · rintro rfl
    exact hno lf (by decide) hc

theorem response_line {proto code text : Bytes} (hp : Version proto) (hc : StatusCode code)
    (ht : text ≠ [] ∧ Plain text) {rest : Bytes}
    (hmax : (proto ++ [space] ++ code ++ [space] ++ text ++ crlf ++ rest).length ≤ maxBufLen) :
    parseFirstLine true (proto ++ [space] ++ code ++ [space] ++ text ++ crlf ++ rest) =
      { statusCode := ⟨(proto ++ [space]).length, code.length⟩
        statusText := ⟨(proto ++ [space] ++ code ++ [space]).length, text.length⟩
        off := (proto ++ [space] ++ code ++ [space] ++ text ++ crlf).length
        noHTTP11 := proto != strHTTP11 } := by
  have hv1 := hp.protoIsV1
  have hlenp : 7 ≤ proto.length := hp.1.length_le
  have hlent := length_pos_iff.2 ht.1
  generalize hline : proto ++ [space] ++ code ++ [space] ++ text = line at hmax ⊢
  obtain ⟨hplain, hlen, hproto, hdrop, hcode⟩ := three_parts hp.2 hc.clean ht.2 hline.symm
  obtain ⟨hskip, hfound, hscan⟩ := scanLine_line hplain (by simp [← hline]) rest
  have htake : line.take proto.length = proto := by
    rw [← hline, append_assoc, append_assoc, append_assoc]
    exact take_left
  have hrest : (code ++ space :: text).length = code.length + 1 + text.length := by
    simp only [length_append, length_cons]
    omega
  rw [length_append, length_append, hlen] at hmax
  simp only [parseFirstLine, if_true, parseFirstLineResponse, hskip, if_neg hfound, hscan, hproto,
    htake, hv1, hdrop, hcode, getD_some, take_left, hc.2.2, Bool.not_true,
    Bool.false_eq_true, if_false, hrest]
  rw [if_neg (by omega), if_neg (by have := hc.2.1; omega), if_pos (by omega),
    view_small (by omega), view_small (by omega)]
  simp [crlf]
  omega

/-- The texts of the first line are what a first line can hold. -/
def HeaderV1.LineReady (h : HeaderV1) (asResponse : Bool) : Prop :=
  Version (h.getNonEmptyValue h.proto) ∧
    if asResponse then StatusCode h.status.1 ∧ h.status.2 ≠ [] ∧ Plain h.status.2
    else Token (h.getNonEmptyValue h.method) ∧ Token (h.getNonEmptyValue h.requestTarget)

def HeaderV1.append (h : HeaderV1) (asResponse : Bool) (dst : Bytes) : Except Err Bytes :=
  if asResponse then h.appendResponse dst else h.appendRequest dst

def HeaderV1.lineText (h : HeaderV1) (asResponse : Bool) : Bytes :=
  if asResponse then
    h.getNonEmptyValue h.proto ++ [space] ++ h.status.1 ++ [space] ++ h.status.2
  else
    h.getNonEmptyValue h.method ++ [space] ++ h.getNonEmptyValue h.requestTarget ++ [space] ++
      h.getNonEmptyValue h.proto

theorem nonEmpty_len {h : HeaderV1} {r : Region} (hne : h.getNonEmptyValue r ≠ []) : r.len ≠ 0 := by
  intro hzero
  exact hne (if_pos hzero)

theorem append_eq {h : HeaderV1} {resp : Bool} (hoom : h.kv.flags.oomReached = false)
    (hready : h.LineReady resp) (dst : Bytes) : h.append resp dst =
      .ok (dst ++ (h.lineText resp ++ crlf ++ fieldTexts h.fields ++ crlf)) := by
  obtain ⟨hp, hline⟩ := hready
  have hproto : ¬ (h.getNonEmptyValue h.proto).length = 0 :=
    fun hzero => hp.ne_nil (eq_nil_of_length_eq_zero hzero)
  cases resp with
  | true =>
    obtain ⟨hc, ht, -⟩ := hline
    have hstatus : ¬ (h.statusCode.len = 0 ∨ h.statusText.len = 0) := by
      rintro (hzero | hzero)
      · exact hc.1 (by rw [HeaderV1.status, if_pos hzero])
      refine ht ?_
      rw [HeaderV1.status]
      split_ifs
      · rfl
      · exact read_empty _ hzero
    simp only [HeaderV1.append, if_true, HeaderV1.appendResponse, HeaderV1.appendResponseNoHeaders,
      hoom, Bool.false_eq_true, if_false, if_neg hstatus, if_neg hproto, bind, Except.bind,
      appendHeaders_eq, HeaderV1.lineText]
    simp [pure, Except.pure]
  | false =>
  have hreq : ¬ (h.requestTarget.len = 0 ∨ h.method.len = 0) := by
    rintro (hzero | hzero)
    · exact nonEmpty_len hline.2.1 hzero
    · exact nonEmpty_len hline.1.1 hzero
  simp only [HeaderV1.append, Bool.false_eq_true, if_false, HeaderV1.appendRequest, hoom,
    if_neg hreq, if_neg hproto, appendHeaders_eq, HeaderV1.lineText]
  simp

/-- The first line that was read says what `h` wrote. -/
structure LineRead (h : HeaderV1) (asResponse : Bool) (data : Bytes) (r : FirstLine) : Prop where
  err : r.err = none
  off : r.off = (h.lineText asResponse ++ crlf).length
  version : r.noHTTP11 = (h.getNonEmptyValue h.proto != strHTTP11)
  request : asResponse = false → Regions.read data r.method = h.getNonEmptyValue h.method ∧
    Regions.read data r.requestTarget = h.getNonEmptyValue h.requestTarget ∧
    Regions.read data r.proto = h.getNonEmptyValue h.proto
  response : asResponse = true → r.statusCode.len ≠ 0 ∧
    (Regions.read data r.statusCode, Regions.read data r.statusText) = h.status

theorem line_read {h : HeaderV1} {resp : Bool} (hready : h.LineReady resp) {rest : Bytes}
    (hmax : (h.lineText resp ++ crlf ++ rest).length ≤ maxBufLen) :
    LineRead h resp (h.lineText resp ++ crlf ++ rest)
      (parseFirstLine resp (h.lineText resp ++ crlf ++ rest)) := by
  obtain ⟨hp, hline⟩ := hready
  cases resp with
  | true =>
    obtain ⟨hc, ht1, ht2⟩ := hline
    have hparse := response_line hp hc ⟨ht1, ht2⟩ hmax
    have hcode := read_middle (h.getNonEmptyValue h.proto ++ [space]) h.status.1
      ([space] ++ h.status.2 ++ crlf ++ rest)
    have htext := read_middle (h.getNonEmptyValue h.proto ++ [space] ++ h.status.1 ++ [space])
      h.status.2 (crlf ++ rest)
    simp only [HeaderV1.lineText, if_true] at hmax ⊢
    rw [hparse]
    refine ⟨rfl, rfl, rfl, fun hno => absurd hno.symm Bool.false_ne_true, fun _ => ⟨?_, ?_⟩⟩
    · exact fun hzero => hc.1 (eq_nil_of_length_eq_zero hzero)
    refine Prod.ext ?_ ?_
    · simpa only [append_assoc] using hcode
    · simpa only [append_assoc] using htext
  | false =>
  have hparse := request_line hline.1 hline.2 hp hmax
  have hmethod := read_middle [] (h.getNonEmptyValue h.method)
    ([space] ++ h.getNonEmptyValue h.requestTarget ++ [space] ++ h.getNonEmptyValue h.proto ++
      crlf ++ rest)
  have htarget := read_middle (h.getNonEmptyValue h.method ++ [space])
    (h.getNonEmptyValue h.requestTarget) ([space] ++ h.getNonEmptyValue h.proto ++ crlf ++ rest)
  have hproto := read_middle (h.getNonEmptyValue h.method ++ [space] ++
    h.getNonEmptyValue h.requestTarget ++ [space]) (h.getNonEmptyValue h.proto) (crlf ++ rest)
  simp only [HeaderV1.lineText, Bool.false_eq_true, if_false] at hmax ⊢
  rw [hparse]
  refine ⟨rfl, rfl, rfl, fun _ => ⟨?_, ?_, ?_⟩, fun hno => absurd hno Bool.false_ne_true⟩
  · simpa only [append_assoc, nil_append, length_nil] using hmethod
  · simpa only [append_assoc] using htarget
  · simpa only [append_assoc] using hproto

theorem fieldPairs_valid : ∀ (es : List (Bytes × Bytes)) (off : ℕ), 0 < off →
    (∀ e ∈ es, CleanKey e.1 ∧ CleanValue e.2) →
    ∀ p ∈ fieldPairs off es, p.isValidHeader ∧ p.isValid := by
  intro es
  induction es with
  | nil => exact fun _ _ _ p hp => by cases hp
  | cons e es ih =>
  intro off hpos hclean p hp
  rcases mem_cons.1 hp with rfl | hp
  · have hlen := length_pos_iff.2 (hclean e mem_cons_self).1.1
    exact ⟨decide_eq_true hpos, by rw [Pair.isValid, fieldPair, decide_eq_true hlen]; rfl⟩
  · exact ih _ (by omega) (fun e' he' => hclean e' (mem_cons_of_mem _ he')) p hp

/-- The header that was parsed has the line and the fields of `h`, and all bytes are used. -/
structure ReadBack (asResponse : Bool) (h : HeaderV1) (bytes : Bytes) (p : HeaderV1 × Option Err) :
    Prop where
  err : p.2 = none
  request : asResponse = false →
    p.1.getNonEmptyValue p.1.method = h.getNonEmptyValue h.method ∧
    p.1.getNonEmptyValue p.1.requestTarget = h.getNonEmptyValue h.requestTarget ∧
    p.1.getNonEmptyValue p.1.proto = h.getNonEmptyValue h.proto
  response : asResponse = true → p.1.status = h.status
  version : p.1.kv.flags.noHTTP11 = (h.getNonEmptyValue h.proto != strHTTP11)
  live : p.1.kv.live = h.kv.live
  parsed : p.1.bufferParsed = bytes.length
  body : p.1.body = ([], none)

theorem write_then_parse {h g g₀ : HeaderV1} (hb : Built h)
    (hoom : h.kv.flags.oomReached = false) {resp : Bool} (hready : h.LineReady resp)
    {buf : Option Slice} {numHeaderCapacity : ℕ} (hreset : g.reset buf numHeaderCapacity = some g₀)
    (hbuf : ∀ b, buf = some b → b.len = 0) (dst : Bytes) (slack : ℕ) :
    ∃ bytes, h.append resp dst = .ok (dst ++ bytes) ∧
      (bytes.length + g₀.kv.buf.mem.length ≤ maxBufLen → (g₀.kv.flags.noBufferGrow →
          bytes.length ≤ g₀.kv.buf.mem.length ∧ h.kv.live.length ≤ g₀.kv.kvCap) →
        ∃ p, g₀.parseBytes resp bytes slack = some p ∧ ReadBack resp h bytes p) := by
  refine ⟨_, append_eq hoom hready dst, fun hmax hroom => ?_⟩
  rw [built_fields hb] at hmax hroom ⊢
  have hmax' : (h.lineText resp ++ crlf ++ fieldTexts h.kv.live ++ crlf).length ≤
      maxBufLen := by omega
  have hpre : 0 < (h.lineText resp ++ crlf).length := by simp [crlf]
  have hline := @line_read h resp hready (fieldTexts h.kv.live ++ crlf)
    (by rw [← append_assoc]; exact hmax')
  rw [← append_assoc] at hline
  obtain ⟨p, hp, hshows, herr⟩ := parseBytes_shows hreset hbuf resp
    (by simp [crlf]) hmax (fun hno => (hroom hno).1) slack
  generalize hdata : h.lineText resp ++ crlf ++ fieldTexts h.kv.live ++ crlf = data at *
  have hadd : ∀ n < ([] : List Pair).length + h.kv.live.length, g₀.canAdd n := by
    intro n hn
    rw [length_nil, Nat.zero_add] at hn
    unfold HeaderV1.canAdd
    cases hgrow : g₀.kv.flags.noBufferGrow with
    | false => simp
    | true => simpa using lt_of_lt_of_le hn (hroom hgrow).2
  have hfields := fieldsFrom_texts h.kv.live (h.lineText resp ++ crlf) [] hb.clean hpre
    (by rw [hdata]; exact hmax') hadd
  rw [hdata, nil_append] at hfields
  have hattempt : attempt resp g₀.canAdd [] data = (parseFirstLine resp data,
      { kvs := fieldPairs (h.lineText resp ++ crlf).length h.kv.live
        off := data.length
        err := none }) := by
    rw [attempt_done hline.err, hline.off, hfields]
  have hpairs := @attempt_inside resp g₀.canAdd [] data (by simp)
  have hin := firstLine_inside resp data
  have hvalid := fieldPairs_valid h.kv.live _ hpre hb.clean
  have hout := outcome_shown hshows hin hpairs p.2
  rw [hattempt] at hshows herr hout
  have hstatus := congrArg status hout
  have hbody := congrArg body hout
  have hfields' := congrArg fields hout
  simp only [outcome, shown, hline.err, isNone_none, Bool.and_self, if_true,
    drop_length] at hstatus hbody hfields'
  refine ⟨p, hp, herr, fun hreq => ?_, fun hres => ?_, ?_, ?_, ?_, hbody⟩
  · obtain ⟨h1, h2, h3⟩ := hline.request hreq
    rw [← h1, ← h2, ← h3]
    exact ⟨congrArg method hout, congrArg requestTarget hout, congrArg protocol hout⟩
  · obtain ⟨h1, h2⟩ := hline.response hres
    rw [hstatus, if_neg h1, h2]
  · rw [hshows.flags]
    exact hline.version
  · have hsame : p.1.fields = p.1.kv.live := by
      refine fields_eq_live fun q hq => ?_
      rw [hshows.kvs] at hq
      rw [(hvalid q hq).1, (hvalid q hq).2]
    rw [← hsame, hfields', filter_eq_self.2 fun q hq => (hvalid q hq).1, ← hdata]
    exact fieldPairs_read h.kv.live (h.lineText resp ++ crlf) crlf
  · exact congrArg bufferParsed hout

/-- After calls with clean keys and values, a header that was never short of room and has its
first line is read back from what is written of it. -/
theorem header_round_trip (h h₀ : HeaderV1) (buf : Option Slice) (numHeaderCapacity : ℕ)
    (hreset : h.reset buf numHeaderCapacity = some h₀) (ops : List Build)
    (hclean : ∀ op ∈ ops, op.Clean) (asResponse : Bool) (dst : Bytes) (g g₀ : HeaderV1)
    (buf' : Option Slice) (numHeaderCapacity' : ℕ)
    (hreset' : g.reset buf' numHeaderCapacity' = some g₀) (hbuf : ∀ b, buf' = some b → b.len = 0)
    (slack : ℕ) : ∃ built, exec build h₀ ops = .ok built ∧
      (built.kv.flags.oomReached = false → built.LineReady asResponse →
        ∃ bytes, built.append asResponse dst = .ok (dst ++ bytes) ∧
          (bytes.length + g₀.kv.buf.mem.length ≤ maxBufLen → (g₀.kv.flags.noBufferGrow = true →
              bytes.length ≤ g₀.kv.buf.mem.length ∧ built.kv.live.length ≤ g₀.kv.kvCap) →
            ∃ p, g₀.parseBytes asResponse bytes slack = some p ∧
              ReadBack asResponse built bytes p)) := by
  obtain ⟨built, hrun, hb⟩ := builds ops h₀ (built_reset hreset) hclean
  exact ⟨built, hrun, fun hoom hready => write_then_parse hb hoom hready hreset' hbuf dst slack⟩

def getRequest : List Build :=
  [.setMethod [71, 69, 84] 0, .setRequestTarget [47] 0, .setProtocol strHTTP11 0,
    .add [65] [98] 0 0]

theorem header_round_trip_get : ∃ built bytes p, exec build {} getRequest = .ok built ∧
    built.append false [] = .ok bytes ∧ ({} : HeaderV1).parseBytes false bytes 0 = some p ∧
    ReadBack false built bytes p := by
  obtain ⟨built, hrun, htrip⟩ := header_round_trip {} {} none 0 rfl getRequest
    (by simp [getRequest, Build.Clean, CleanKey, CleanValue]; decide) false [] {} {} none 0 rfl
    (by simp) 0
  obtain ⟨b, hb, hoom, hm, ht, hp, hsize⟩ : ∃ b, exec build {} getRequest = .ok b ∧
      b.kv.flags.oomReached = false ∧ b.getNonEmptyValue b.method = [71, 69, 84] ∧
      b.getNonEmptyValue b.requestTarget = [47] ∧ b.getNonEmptyValue b.proto = strHTTP11 ∧
      (b.append false []).toOption.map List.length = some 24 := exists_exec (by decide +kernel)
  cases hrun.symm.trans hb
  have hready : built.LineReady false := by
    unfold HeaderV1.LineReady Version Token Plain
    rw [hm, ht, hp, if_neg Bool.false_ne_true]
    decide +kernel
  obtain ⟨bytes, happend, hparse⟩ := htrip hoom hready
  rw [nil_append] at happend
  rw [happend] at hsize
  have hlen : bytes.length = 24 := some.inj hsize
  obtain ⟨p, hp, hback⟩ := hparse (by rw [hlen]; decide) (nofun)
  exact ⟨built, bytes, p, hrun, happend, hp, hback⟩

/-- A method with a space in it is written and not read back. -/
theorem spaced_method_lost : (((exec build {} [.setMethod [65, 32, 66] 0, .setRequestTarget [47] 0,
      .setProtocol strHTTP11 0]).toOption.bind fun built => (built.append false []).toOption).bind
        fun bytes => ({} : HeaderV1).parseBytes false bytes 0).map Prod.snd =
      some (some .unsupported) := by
  decide +kernel

end Lneto.HttpHeaders
