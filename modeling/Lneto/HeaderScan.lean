import Lneto.HttpHeaders
import Mathlib.Data.List.TakeWhile

/-!
The header parser on data that grows. A line or field that was accepted or
refused stays so when more data has arrived. The field loop started again where
it stopped reaches what it reaches from the beginning.
-/
namespace Lneto.HttpHeaders

open ByteSearch KeyValues Regions List Bool

variable {data : Bytes} {off : ℕ} {kvs : List Pair}

theorem drop_grow (h : off ≤ data.length) (more : Bytes) :
    (data ++ more).drop off = data.drop off ++ more := drop_append_of_le_length h

theorem skip_grow (h : lf ∈ data.drop (skipLeadingCRLF data)) (more : Bytes) :
    skipLeadingCRLF (data ++ more) = skipLeadingCRLF data := by
  unfold skipLeadingCRLF at h ⊢
  rw [takeWhile_append, if_neg]
  intro hall
  rw [hall, drop_length] at h
  cases h

theorem skip_le (data : Bytes) : skipLeadingCRLF data ≤ data.length :=
  (takeWhile_sublist _).length_le

theorem find_newline (h : lf ∈ data.drop off) :
    ∃ i, indexByte (data.drop off) lf = some i ∧ off + i < data.length := by
  cases hfind : indexByte (data.drop off) lf with
  | none => exact absurd h (indexByte_eq_none.1 hfind)
  | some i =>
    have hlt := indexByte_lt hfind
    rw [length_drop] at hlt
    exact ⟨i, rfl, by omega⟩

theorem scanLine_grow (hoff : off ≤ data.length) (h : lf ∈ data.drop off) (more : Bytes) :
    scanLine (data ++ more) off = scanLine data off := by
  obtain ⟨i, hi, hlt⟩ := find_newline h
  have h2 : off + i < (data ++ more).length := by
    rw [length_append]
    omega
  unfold scanLine
  simp only [drop_grow hoff, indexByte_grow hi, hi, Option.getD_some,
    take_append_of_le_length (show i ≤ (data.drop off).length by rw [length_drop]; omega)]
  rw [length_take, length_drop, Nat.min_eq_left (by omega), if_pos hlt, if_pos h2]

theorem scanLine_off (h : lf ∈ data.drop off) :
    off < (scanLine data off).2 ∧ (scanLine data off).2 ≤ data.length := by
  obtain ⟨i, hi, hlt⟩ := find_newline h
  unfold scanLine
  simp only [hi, Option.getD_some]
  rw [length_take, length_drop, Nat.min_eq_left (by omega), if_pos hlt]
  omega

theorem firstLine_cases (resp : Bool) (data : Bytes) :
    (lf ∉ data.drop (skipLeadingCRLF data) ∧ parseFirstLine resp data =
      { off := skipLeadingCRLF data, err := some .needMoreData }) ∨
    (lf ∈ data.drop (skipLeadingCRLF data) ∧
      (parseFirstLine resp data).off = (scanLine data (skipLeadingCRLF data)).2 ∧
      ∀ more, parseFirstLine resp (data ++ more) = parseFirstLine resp data) := by
  by_cases h : lf ∈ data.drop (skipLeadingCRLF data)
  · have hfind : ¬ indexByte (data.drop (skipLeadingCRLF data)) lf = none :=
      fun hnone => indexByte_eq_none.1 hnone h
    have hgrow : ∀ more, ¬ indexByte ((data ++ more).drop (skipLeadingCRLF data)) lf = none := by
      intro more hnone
      rw [drop_grow (skip_le data)] at hnone
      exact indexByte_eq_none.1 hnone (mem_append_left _ h)
    refine .inr ⟨h, ?_, fun more => ?_⟩
    · cases resp with
      | true =>
        simp only [parseFirstLine, if_true, parseFirstLineResponse, if_neg hfind]
        split_ifs
        · rfl
        split
        · rfl
        · split_ifs <;> rfl
      | false =>
      simp only [parseFirstLine, false_eq_true, if_false, parseFirstLineRequest, if_neg hfind]
      split_ifs
      · rfl
      · split <;> rfl
    cases resp with
    | true =>
      simp only [parseFirstLine, if_true, parseFirstLineResponse, skip_grow h, if_neg hfind,
        if_neg (hgrow more), scanLine_grow (skip_le data) h]
    | false =>
      simp only [parseFirstLine, false_eq_true, if_false, parseFirstLineRequest,
        skip_grow h, if_neg hfind, if_neg (hgrow more), scanLine_grow (skip_le data) h]
  · refine .inl ⟨h, ?_⟩
    have hfind := indexByte_eq_none.2 h
    cases resp with
    | true => simp only [parseFirstLine, if_true, parseFirstLineResponse, hfind]
    | false =>
      simp only [parseFirstLine, false_eq_true, if_false, parseFirstLineRequest, hfind, if_true]

theorem firstLine_grow {resp : Bool} (h : (parseFirstLine resp data).err ≠ some .needMoreData)
    (more : Bytes) : parseFirstLine resp (data ++ more) = parseFirstLine resp data := by
  rcases firstLine_cases resp data with ⟨-, hr⟩ | ⟨-, -, hgrow⟩
  · rw [hr] at h
    exact absurd rfl h
  · exact hgrow more

theorem firstLine_off_le (resp : Bool) (data : Bytes) :
    (parseFirstLine resp data).off ≤ data.length := by
  rcases firstLine_cases resp data with ⟨-, hr⟩ | ⟨hlf, hoff, -⟩
  · rw [hr]
    exact skip_le data
  · rw [hoff]
    exact (scanLine_off hlf).2

theorem valueEnd_bounds {buf : Bytes} : ∀ {fuel n m : ℕ}, valueEnd buf fuel n = some m →
    n < m ∧ m < buf.length := by
  intro fuel
  induction fuel with
  | zero => intro n m h; cases h
  | succ fuel ih =>
  intro n m h
  unfold valueEnd at h
  split at h
  · cases h
  rename_i nl hnl
  have hlt := indexByte_lt hnl
  rw [length_drop] at hlt
  simp only at h
  split_ifs at h with hend hblank
  · obtain ⟨h1, h2⟩ := ih h
    omega
  · cases h
    omega

theorem valueEnd_grow {buf : Bytes} (more : Bytes) : ∀ {fuel fuel' n m : ℕ}, fuel ≤ fuel' →
    valueEnd buf fuel n = some m → valueEnd (buf ++ more) fuel' n = some m := by
  intro fuel
  induction fuel with
  | zero => intro fuel' n m _ h; cases h
  | succ fuel ih =>
  intro fuel' n m hle h
  obtain ⟨fuel', rfl⟩ : ∃ k, fuel' = k + 1 := ⟨fuel' - 1, by omega⟩
  have hbounds := valueEnd_bounds h
  unfold valueEnd at h ⊢
  split at h
  · cases h
  rename_i nl hnl
  have hlt := indexByte_lt hnl
  rw [length_drop] at hlt
  simp only [drop_grow (show n ≤ buf.length by omega), indexByte_grow hnl] at h ⊢
  split_ifs at h with hend hblank
  all_goals rw [if_neg (by rw [length_append]; omega)]
  · rw [getElem?_append_left (by omega), if_pos hblank]
    exact ih (by omega) h
  · rw [getElem?_append_left (by omega), if_neg hblank]
    exact h

theorem next_grow (hoff : off ≤ data.length) (h : (next data off).err ≠ some .needMoreData)
    (more : Bytes) : next (data ++ more) off = next data off := by
  unfold next at h ⊢
  simp only [drop_grow hoff] at h ⊢
  generalize data.drop off = buf at h ⊢
  by_cases hend : buf.take 2 = crlf
  · have hlen : 2 ≤ buf.length := by
      have := congrArg length hend
      rw [length_take] at this
      simp only [crlf, length_cons, length_nil] at this
      omega
    rw [take_append_of_le_length hlen, if_pos hend, if_pos hend]
  rw [if_neg hend] at h ⊢
  by_cases hlf : buf.head? = some lf
  · have hhead : (buf ++ more).head? = some lf := by rw [head?_append, hlf]; rfl
    have hnot : ¬ (buf ++ more).take 2 = crlf := by
      cases buf with
      | nil => cases hlf
      | cons c rest =>
      cases hlf
      intro hcr
      cases hcr
    rw [if_neg hnot, if_pos hhead, if_pos hlf]
  rw [if_neg hlf] at h ⊢
  cases hx : indexByte buf lf with
  | none =>
    rw [hx] at h
    exact absurd rfl h
  | some x =>
  have hxlt := indexByte_lt hx
  have hlen : 2 ≤ buf.length := by
    by_contra hshort
    have hx0 : x = 0 := by omega
    rw [hx0] at hx
    exact hlf (by rw [head?_eq_getElem?]; exact indexByte_get hx)
  have hhead : ¬ (buf ++ more).head? = some lf := by
    rw [head?_append_of_ne_nil _ (ne_nil_of_length_pos (by omega))]
    exact hlf
  rw [take_append_of_le_length hlen, if_neg hend, if_neg hhead, indexByte_grow hx]
  cases hn : indexByte buf colon with
  | none =>
    cases hmore : indexByte (buf ++ more) colon with
    | none => rfl
    | some n =>
    have hle : buf.length ≤ n := by
      by_contra hlt
      rw [indexByte_some_of_grow hmore (by omega)] at hn
      cases hn
    simp only
    rw [if_pos (by omega)]
  | some n =>
  have hnlt := indexByte_lt hn
  rw [indexByte_grow hn]
  rw [hx, hn] at h
  simp only at h ⊢
  by_cases hxn : x < n
  · rw [if_pos hxn, if_pos hxn]
  simp only [if_neg hxn] at h ⊢
  rw [take_append_of_le_length (by omega)]
  by_cases hblank : space ∈ buf.take n ∨ tab ∈ buf.take n
  · simp only [if_pos hblank]
  simp only [if_neg hblank] at h ⊢
  have htrim : ((buf ++ more).drop (n + 1)).takeWhile (· == space) =
      (buf.drop (n + 1)).takeWhile (· == space) := by
    rw [drop_grow (by omega), takeWhile_append, if_neg]
    intro hall
    have heq := (takeWhile_sublist (· == space)).eq_of_length hall
    have hmem : lf ∈ buf.drop (n + 1) := by
      have hne : x ≠ n := by
        rintro rfl
        have := (indexByte_get hx).symm.trans (indexByte_get hn)
        cases this
      rw [mem_iff_getElem?]
      exact ⟨x - (n + 1), by rw [getElem?_drop, ← indexByte_get hx]; congr 1; omega⟩
    rw [← heq] at hmem
    have := mem_takeWhile_imp hmem
    cases this
  rw [htrim]
  cases hv : valueEnd buf buf.length
      (n + 1 + ((buf.drop (n + 1)).takeWhile (· == space)).length) with
  | none =>
    rw [hv] at h
    exact absurd rfl h
  | some m =>
    have hb := valueEnd_bounds hv
    rw [valueEnd_grow more (by rw [length_append]; omega) hv]
    simp only
    rw [getElem?_append_left (by omega)]

theorem next_off (h : (next data off).kv.isValidHeader) :
    off < (next data off).off ∧ (next data off).off < data.length := by
  have hno : ({} : Pair).isValidHeader = false := rfl
  unfold next at h ⊢
  simp only at h ⊢
  split_ifs at h ⊢ with h1 h2
  · rw [hno] at h; cases h
  · rw [hno] at h; cases h
  split at h
  · rw [hno] at h; cases h
  · rw [hno] at h; cases h
  rename_i x n hx hn
  split_ifs at h ⊢ with h3 h4
  · rw [hno] at h; cases h
  · rw [hno] at h; cases h
  split at h
  · rw [hno] at h; cases h
  rename_i m hv
  have hb := valueEnd_bounds hv
  rw [length_drop] at hb
  simp only
  omega

theorem valid_err (h : (next data off).kv.isValidHeader) :
    (next data off).err ≠ some .needMoreData := by
  have hno : ({} : Pair).isValidHeader = false := rfl
  unfold next at h ⊢
  simp only at h ⊢
  split_ifs at h ⊢ with h1 h2
  · simp
  · simp
  split at h
  · rw [hno] at h; cases h
  · simp
  split_ifs at h ⊢
  · simp
  · simp
  split at h
  · rw [hno] at h; cases h
  · simp

theorem next_stop (hoff : off ≤ data.length) (h : (next data off).kv.isValidHeader = false) :
    off ≤ (next data off).off ∧ (next data off).off ≤ data.length ∧
      (next data off).err ≠ some .headerTooMany ∧
      ((next data off).err = some .needMoreData → (next data off).off = off) := by
  have hlen : (data.drop off).length = data.length - off := length_drop
  unfold next at h ⊢
  simp only at h ⊢
  split_ifs at h ⊢ with h1 h2
  · have := congrArg length h1
    rw [length_take] at this
    simp only [crlf, length_cons, length_nil] at this
    refine ⟨by simp only; omega, by simp only; omega, by simp, by simp⟩
  · have : data.drop off ≠ [] := by
      rintro hnil
      rw [hnil] at h2
      cases h2
    have := length_pos_iff.2 this
    refine ⟨by simp only; omega, by simp only; omega, by simp, by simp⟩
  split at h
  · exact ⟨le_rfl, hoff, by simp, fun _ => rfl⟩
  · exact ⟨le_rfl, hoff, by simp, fun _ => rfl⟩
  rename_i x n hx hn
  split_ifs at h ⊢ with h3 h4
  · exact ⟨le_rfl, hoff, by simp, fun _ => rfl⟩
  · exact ⟨le_rfl, hoff, by simp, fun _ => rfl⟩
  split at h
  · exact ⟨le_rfl, hoff, by simp, fun _ => rfl⟩
  rename_i m hv
  have hb := valueEnd_bounds hv
  exact ⟨by simp only; omega, by simp only; omega, by simp, by simp⟩

section Loop
variable {data : Bytes} {canAdd : ℕ → Bool}

def fieldsFrom (data : Bytes) (canAdd : ℕ → Bool) (kvs : List Pair) (off : ℕ) : Fields :=
  fieldLoop data canAdd (data.length + 1) kvs off

theorem fieldLoop_fuel : ∀ {fuel fuel' : ℕ} {kvs : List Pair} {off : ℕ}, off ≤ data.length →
    data.length < off + fuel → data.length < off + fuel' →
    fieldLoop data canAdd fuel kvs off = fieldLoop data canAdd fuel' kvs off := by
  intro fuel
  induction fuel with
  | zero =>
    intro fuel' kvs off hoff h h'
    omega
  | succ fuel ih =>
  intro fuel' kvs off hoff h h'
  obtain ⟨fuel', rfl⟩ : ∃ k, fuel' = k + 1 := ⟨fuel' - 1, by omega⟩
  unfold fieldLoop
  cases hvalid : (next data off).kv.isValidHeader with
  | false => simp only [hvalid, Bool.not_false, if_true]
  | true =>
  obtain ⟨h1, h2⟩ := next_off hvalid
  have hrest := @ih fuel' (kvs ++ [(next data off).kv]) (next data off).off (by omega) (by omega)
    (by omega)
  simp only [hvalid, Bool.not_true, Bool.false_eq_true, if_false, hrest]

theorem fieldsFrom_eq (kvs : List Pair) (off : ℕ) : fieldsFrom data canAdd kvs off =
      if !(next data off).kv.isValidHeader then
        { kvs, off := (next data off).off, err := (next data off).err }
      else if !canAdd kvs.length then
        { kvs, off := (next data off).off, err := some .headerTooMany }
      else fieldsFrom data canAdd (kvs ++ [(next data off).kv]) (next data off).off := by
  unfold fieldsFrom
  rw [fieldLoop]
  cases hvalid : (next data off).kv.isValidHeader with
  | false => simp only [Bool.not_false, if_true]
  | true =>
  obtain ⟨h1, h2⟩ := next_off hvalid
  have hrest := @fieldLoop_fuel data canAdd data.length (data.length + 1)
    (kvs ++ [(next data off).kv]) (next data off).off (by omega) (by omega) (by omega)
  simp only [Bool.not_true, Bool.false_eq_true, if_false, hrest]

/-- Induction along the loop: what holds where it stops and is kept by taking one field. -/
theorem fieldsFrom_induction {P : List Pair → ℕ → Prop}
    (hstop : ∀ kvs off, off ≤ data.length → (next data off).kv.isValidHeader = false → P kvs off)
    (hfull : ∀ kvs off, off ≤ data.length → (next data off).kv.isValidHeader →
      canAdd kvs.length = false → P kvs off)
    (htake : ∀ kvs off, off ≤ data.length → (next data off).kv.isValidHeader →
      canAdd kvs.length → P (kvs ++ [(next data off).kv]) (next data off).off → P kvs off) :
    ∀ kvs off, off ≤ data.length → P kvs off := by
  have hmain : ∀ n kvs off, off ≤ data.length → data.length < off + n → P kvs off := by
    intro n
    induction n with
    | zero => intro kvs off hoff hn; omega
    | succ n ih =>
    intro kvs off hoff hn
    cases hvalid : (next data off).kv.isValidHeader with
    | false => exact hstop kvs off hoff hvalid
    | true =>
    cases hadd : canAdd kvs.length with
    | false => exact hfull kvs off hoff hvalid hadd
    | true =>
      obtain ⟨h1, h2⟩ := next_off hvalid
      exact htake kvs off hoff hvalid hadd (ih _ _ (by omega) (by omega))
  exact fun kvs off hoff => hmain (data.length + 1) kvs off hoff (by omega)

theorem fieldsFrom_stop (h : (next data off).kv.isValidHeader = false) :
    fieldsFrom data canAdd kvs off =
      { kvs, off := (next data off).off, err := (next data off).err } := by
  rw [fieldsFrom_eq, h]
  rfl

theorem fieldsFrom_full (h : (next data off).kv.isValidHeader) (hadd : canAdd kvs.length = false) :
    fieldsFrom data canAdd kvs off =
      { kvs, off := (next data off).off, err := some .headerTooMany } := by
  rw [fieldsFrom_eq, h, hadd]
  rfl

theorem fieldsFrom_take (h : (next data off).kv.isValidHeader) (hadd : canAdd kvs.length) :
    fieldsFrom data canAdd kvs off =
      fieldsFrom data canAdd (kvs ++ [(next data off).kv]) (next data off).off := by
  rw [fieldsFrom_eq, h, hadd]
  rfl

theorem fieldsFrom_off (kvs : List Pair) (off : ℕ) (hoff : off ≤ data.length) :
    off ≤ (fieldsFrom data canAdd kvs off).off ∧
      (fieldsFrom data canAdd kvs off).off ≤ data.length ∧
      ((fieldsFrom data canAdd kvs off).err = some .headerTooMany →
        off < (fieldsFrom data canAdd kvs off).off) := by
  refine @fieldsFrom_induction data canAdd (fun kvs off =>
    off ≤ (fieldsFrom data canAdd kvs off).off ∧
      (fieldsFrom data canAdd kvs off).off ≤ data.length ∧
      ((fieldsFrom data canAdd kvs off).err = some .headerTooMany →
        off < (fieldsFrom data canAdd kvs off).off)) ?_ ?_ ?_ kvs off hoff
  · intro kvs off hoff h
    obtain ⟨h1, h2, h3, -⟩ := next_stop hoff h
    rw [fieldsFrom_stop h]
    exact ⟨h1, h2, fun hmany => absurd hmany h3⟩
  · intro kvs off hoff h hadd
    obtain ⟨h1, h2⟩ := next_off h
    rw [fieldsFrom_full h hadd]
    exact ⟨h1.le, h2.le, fun _ => h1⟩
  intro kvs off hoff h hadd ih
  obtain ⟨h1, h2⟩ := next_off h
  rw [fieldsFrom_take h hadd]
  exact ⟨by omega, ih.2.1, fun _ => by omega⟩

/-- The fields there were stay in front, and all others are proper ones. -/
theorem fieldsFrom_kvs (kvs : List Pair) (off : ℕ) (hoff : off ≤ data.length) :
    ∃ new, (fieldsFrom data canAdd kvs off).kvs = kvs ++ new ∧ (∀ p ∈ new, p.isValidHeader = true) ∧
      ∀ cap, (∀ n, canAdd n → n < cap) → kvs.length ≤ cap → (kvs ++ new).length ≤ cap := by
  refine @fieldsFrom_induction data canAdd (fun kvs off =>
    ∃ new, (fieldsFrom data canAdd kvs off).kvs = kvs ++ new ∧
      (∀ p ∈ new, p.isValidHeader = true) ∧
      ∀ cap, (∀ n, canAdd n → n < cap) → kvs.length ≤ cap → (kvs ++ new).length ≤ cap)
    ?_ ?_ ?_ kvs off hoff
  · intro kvs off hoff h
    rw [fieldsFrom_stop h]
    exact ⟨[], (append_nil _).symm, by simp, fun cap _ hk => by rw [append_nil]; exact hk⟩
  · intro kvs off hoff h hadd
    rw [fieldsFrom_full h hadd]
    exact ⟨[], (append_nil _).symm, by simp, fun cap _ hk => by rw [append_nil]; exact hk⟩
  intro kvs off hoff h hadd ⟨new, hkvs, hvalid, hcap⟩
  rw [fieldsFrom_take h hadd]
  refine ⟨(next data off).kv :: new, by rw [hkvs, append_assoc]; rfl, ?_, ?_⟩
  · intro p hp
    rcases mem_cons.1 hp with rfl | hp
    · exact h
    · exact hvalid p hp
  intro cap hlim hk
  have := hcap cap hlim (by
    rw [length_append, length_singleton]
    exact hlim _ hadd)
  rw [append_assoc] at this
  exact this

/-- With more data, the loop reaches the same end, or goes on from where it asked for more. -/
theorem fieldsFrom_grow (more : Bytes) (kvs : List Pair) (off : ℕ) (hoff : off ≤ data.length) :
    fieldsFrom (data ++ more) canAdd kvs off =
      if (fieldsFrom data canAdd kvs off).err = some .needMoreData then
        fieldsFrom (data ++ more) canAdd (fieldsFrom data canAdd kvs off).kvs
          (fieldsFrom data canAdd kvs off).off else fieldsFrom data canAdd kvs off := by
  refine @fieldsFrom_induction data canAdd (fun kvs off =>
    fieldsFrom (data ++ more) canAdd kvs off =
      if (fieldsFrom data canAdd kvs off).err = some .needMoreData then
        fieldsFrom (data ++ more) canAdd (fieldsFrom data canAdd kvs off).kvs
          (fieldsFrom data canAdd kvs off).off
      else fieldsFrom data canAdd kvs off) ?_ ?_ ?_ kvs off hoff
  · intro kvs off hoff h
    obtain ⟨-, -, -, hmore⟩ := next_stop hoff h
    rw [fieldsFrom_stop h]
    by_cases hneed : (next data off).err = some .needMoreData
    · rw [if_pos hneed, hmore hneed]
    rw [if_neg hneed]
    have hnext := next_grow hoff hneed more
    rw [fieldsFrom_stop (by rw [hnext]; exact h), hnext]
  · intro kvs off hoff h hadd
    have hnext := next_grow hoff (valid_err h) more
    rw [fieldsFrom_full h hadd, if_neg (by simp),
      fieldsFrom_full (by rw [hnext]; exact h) hadd, hnext]
  intro kvs off hoff h hadd ih
  have hnext := next_grow hoff (valid_err h) more
  rw [fieldsFrom_take h hadd, fieldsFrom_take (by rw [hnext]; exact h) hadd, hnext, ih]

/-- More fields at the start show at the end: in the number of fields, the offset or the error. -/
theorem fieldsFrom_longer (hanti : ∀ m n, m ≤ n → canAdd n → canAdd m) (extra : List Pair)
    (kvs : List Pair) (off : ℕ) (hoff : off ≤ data.length) (hlt : kvs.length < extra.length) :
    (fieldsFrom data canAdd kvs off).kvs.length ≠ (fieldsFrom data canAdd extra off).kvs.length ∨
      (fieldsFrom data canAdd kvs off).off ≠ (fieldsFrom data canAdd extra off).off ∨
      (fieldsFrom data canAdd kvs off).err ≠ (fieldsFrom data canAdd extra off).err := by
  revert hlt
  revert extra
  refine @fieldsFrom_induction data canAdd (fun kvs off => ∀ extra : List Pair,
    kvs.length < extra.length →
    (fieldsFrom data canAdd kvs off).kvs.length ≠ (fieldsFrom data canAdd extra off).kvs.length ∨
      (fieldsFrom data canAdd kvs off).off ≠ (fieldsFrom data canAdd extra off).off ∨
      (fieldsFrom data canAdd kvs off).err ≠ (fieldsFrom data canAdd extra off).err)
    ?_ ?_ ?_ kvs off hoff
  · intro kvs off hoff h extra hlt
    rw [fieldsFrom_stop h, fieldsFrom_stop h]
    exact .inl hlt.ne
  · intro kvs off hoff h hadd extra hlt
    have hno : canAdd extra.length = false := by
      by_contra hyes
      rw [hanti _ _ hlt.le (not_eq_false _ ▸ hyes)] at hadd
      cases hadd
    rw [fieldsFrom_full h hadd, fieldsFrom_full h hno]
    exact .inl hlt.ne
  intro kvs off hoff h hadd ih extra hlt
  obtain ⟨h1, h2⟩ := next_off h
  rw [fieldsFrom_take h hadd]
  cases hextra : canAdd extra.length with
  | true =>
    rw [fieldsFrom_take h hextra]
    exact ih _ (by rw [length_append, length_append]; omega)
  | false =>
  -- the longer one is full; the other gets further or ends for another reason
  rw [fieldsFrom_full h hextra]
  by_cases hmany : (fieldsFrom data canAdd (kvs ++ [(next data off).kv])
      (next data off).off).err = some .headerTooMany
  · refine .inr (.inl ?_)
    have := (fieldsFrom_off _ _ h2.le).2.2 hmany
    simp only
    omega
  · exact .inr (.inr hmany)

end Loop

def Inside (data : Bytes) (r : Region) : Prop := r.start + r.len ≤ data.length

theorem view_inside {start n : ℕ} (h : start + n ≤ data.length) : Inside data (view start n) := by
  have h1 : tokint start ≤ start := Nat.mod_le _ _
  have h2 : tokint n ≤ n := Nat.mod_le _ _
  exact (Nat.add_le_add h1 h2).trans h

theorem inside_empty (data : Bytes) : Inside data {} := Nat.zero_le _

theorem Inside.grow {r : Region} (h : Inside data r) (more : Bytes) : Inside (data ++ more) r := by
  unfold Inside at h ⊢
  rw [length_append]
  omega

def PairInside (data : Bytes) (p : Pair) : Prop := Inside data p.key ∧ Inside data p.value

theorem next_inside (data : Bytes) (off : ℕ) : PairInside data (next data off).kv := by
  have hnone : PairInside data {} := ⟨inside_empty data, inside_empty data⟩
  unfold next
  simp only
  split_ifs
  · exact hnone
  · exact hnone
  split
  · exact hnone
  · exact hnone
  split_ifs
  · exact hnone
  · exact hnone
  split
  · exact hnone
  rename_i m hv
  have hb := valueEnd_bounds hv
  rw [length_drop] at hb
  refine ⟨view_inside (by omega), view_inside ?_⟩
  split_ifs <;> omega

theorem fieldsFrom_inside {canAdd : ℕ → Bool} (kvs : List Pair) (off : ℕ) (hoff : off ≤ data.length)
    (hkvs : ∀ p ∈ kvs, PairInside data p) :
    ∀ p ∈ (fieldsFrom data canAdd kvs off).kvs, PairInside data p := by
  revert hkvs
  refine @fieldsFrom_induction data canAdd (fun kvs off => (∀ p ∈ kvs, PairInside data p) →
    ∀ p ∈ (fieldsFrom data canAdd kvs off).kvs, PairInside data p) ?_ ?_ ?_ kvs off hoff
  · intro kvs off _ h hkvs
    rw [fieldsFrom_stop h]
    exact hkvs
  · intro kvs off _ h hadd hkvs
    rw [fieldsFrom_full h hadd]
    exact hkvs
  intro kvs off _ h hadd ih hkvs
  rw [fieldsFrom_take h hadd]
  refine ih fun p hp => ?_
  rcases mem_append.1 hp with hp | hp
  · exact hkvs p hp
  · rw [mem_singleton.1 hp]
    exact next_inside data off

theorem scanLine_length (data : Bytes) (off : ℕ) :
    (scanLine data off).1.length ≤ data.length - off := by
  unfold scanLine
  simp only
  split_ifs
  · rw [length_dropLast, length_take, length_drop]
    omega
  · rw [length_take, length_drop]
    omega

structure FirstLineInside (data : Bytes) (r : FirstLine) : Prop where
  method : Inside data r.method
  requestTarget : Inside data r.requestTarget
  proto : Inside data r.proto
  statusCode : Inside data r.statusCode
  statusText : Inside data r.statusText

theorem request_inside (data : Bytes) : FirstLineInside data (parseFirstLineRequest data) := by
  have hlen := scanLine_length data (skipLeadingCRLF data)
  have hskip := skip_le data
  have he := inside_empty data
  unfold parseFirstLineRequest
  simp only
  split_ifs with h1 h2
  · exact ⟨he, he, he, he, he⟩
  · exact ⟨he, he, he, he, he⟩
  generalize (scanLine data (skipLeadingCRLF data)).1 = b at hlen h2 ⊢
  have hm : (indexByte b space).getD 0 < b.length := by
    cases hi : indexByte b space with
    | none => simp only [Option.getD_none]; omega
    | some i => exact indexByte_lt hi
  split
  · exact ⟨view_inside (by omega), view_inside (by omega), he, he, he⟩
  · exact ⟨he, he, he, he, he⟩
  rename_i n hn
  have hlt := indexByte_lt hn
  rw [length_drop] at hlt
  refine ⟨view_inside (by omega), view_inside (by omega), view_inside ?_, he, he⟩
  rw [length_drop]
  omega

theorem response_inside (data : Bytes) : FirstLineInside data (parseFirstLineResponse data) := by
  have hlen := scanLine_length data (skipLeadingCRLF data)
  have hskip := skip_le data
  have he := inside_empty data
  unfold parseFirstLineResponse
  simp only
  split_ifs with h1 h2
  · exact ⟨he, he, he, he, he⟩
  · exact ⟨he, he, he, he, he⟩
  generalize (scanLine data (skipLeadingCRLF data)).1 = b at hlen h2 ⊢
  split
  · exact ⟨he, he, he, he, he⟩
  rename_i protoEnd hp
  have hlt := indexByte_lt hp
  have hrest : (b.drop (protoEnd + 1)).length = b.length - (protoEnd + 1) := length_drop
  have hcode : (indexByte (b.drop (protoEnd + 1)) space).getD (b.drop (protoEnd + 1)).length ≤
      (b.drop (protoEnd + 1)).length := by
    cases hi : indexByte (b.drop (protoEnd + 1)) space with
    | none => exact le_rfl
    | some i => exact (indexByte_lt hi).le
  split_ifs
  · exact ⟨he, he, he, he, he⟩
  · exact ⟨he, he, he, he, he⟩
  · exact ⟨he, he, he, he, he⟩
  · exact ⟨he, he, he, view_inside (by omega), view_inside (by omega)⟩
  · exact ⟨he, he, he, view_inside (by omega), he⟩

theorem firstLine_inside (resp : Bool) (data : Bytes) :
    FirstLineInside data (parseFirstLine resp data) := by
  cases resp with
  | true => exact response_inside data
  | false => exact request_inside data

end Lneto.HttpHeaders
