import Lneto.NtpFrame

/-!
Extension fields: a type, a length that counts the header of four bytes, and a
value padded to a multiple of four. Fields are read one after the other from the
bytes behind the packet header and appended to a slice that lies in the carrier.
-/
namespace Lneto.NtpExtensions

open NtpFrame CircularBuffers Regions List
open Views

def extNTSUniqueID : ℕ := 0x0104

def extNTSCookie : ℕ := 0x0204

def extNTSAuthAndEEF : ℕ := 0x0404

def sizeExtHeader : ℕ := 4

structure ExtField where
  buf : Bytes
  headed : sizeExtHeader ≤ buf.length
  aligned : buf.length % 4 = 0
  sized : wordAt buf 2 = buf.length

namespace ExtField

def type (ef : ExtField) : ℕ := wordAt ef.buf 0

def totalLen (ef : ExtField) : ℕ := wordAt ef.buf 2

def value (ef : ExtField) : Bytes :=
  if ef.totalLen < sizeExtHeader ∨ ef.buf.length < ef.totalLen then []
  else (ef.buf.take ef.totalLen).drop sizeExtHeader

theorem value_eq (ef : ExtField) : ef.value = ef.buf.drop sizeExtHeader := by
  have hheaded := ef.headed
  have htotal : ef.totalLen = ef.buf.length := ef.sized
  unfold value
  rw [htotal, if_neg (by omega), take_length]

theorem value_aligned (ef : ExtField) : ef.value.length % 4 = 0 := by
  have haligned := ef.aligned
  rw [value_eq, length_drop]
  unfold sizeExtHeader
  omega

end ExtField

/-- The first field and its size, nothing where no bytes are left. -/
def nextExtField (buf : Bytes) : Except Err (Option (ExtField × ℕ)) :=
  if buf.length = 0 then .ok none
  else if buf.length < sizeExtHeader then .error .truncatedFrame
  else if hshort : wordAt buf 2 < sizeExtHeader then .error .invalidLengthField
  else if hodd : wordAt buf 2 % 4 ≠ 0 then .error .invalidLengthField
  else if hlong : buf.length < wordAt buf 2 then .error .truncatedFrame
  else
    have hlen : (buf.take (wordAt buf 2)).length = wordAt buf 2 :=
      length_take_of_le (not_lt.1 hlong)
    .ok (some (⟨buf.take (wordAt buf 2), by rw [hlen]; omega, by rw [hlen]; omega, by
      rw [hlen]
      exact wordAt_take (by unfold sizeExtHeader at hshort; omega)⟩, wordAt buf 2))

/-- The loop over the fields of a payload, to the end or to the first bytes that are no field; a
field has at least four bytes. -/
def visitFields {σ : Type} (fn : σ → ExtField → σ) : ℕ → Bytes → σ → σ
  | 0, _, s => s
  | fuel + 1, rest, s =>
    match nextExtField rest with
    | .error _ => s
    | .ok none => s
    | .ok (some (field, n)) => visitFields fn fuel (rest.drop n) (fn s field)

/-- What is seen of the result may be kept along the way. -/
theorem visitFields_map {σ τ : Type} {fn : σ → ExtField → σ} {gn : τ → ExtField → τ} {f : σ → τ}
    (h : ∀ s field, f (fn s field) = gn (f s) field) : ∀ (fuel : ℕ) (rest : Bytes) (s : σ),
      f (visitFields fn fuel rest s) = visitFields gn fuel rest (f s) := by
  intro fuel
  induction fuel with
  | zero =>
    intro rest s
    rfl
  | succ fuel ih =>
  intro rest s
  simp only [visitFields]
  cases nextExtField rest with
  | error e => rfl
  | ok next =>
  cases next with
  | none => rfl
  | some p =>
    rw [ih, h]

def padded (value : Bytes) : ℕ := (value.length + 3) / 4 * 4

def extField (typ : ℕ) (value : Bytes) : Bytes :=
  View.split16 typ ++ View.split16 (sizeExtHeader + padded value) ++ value ++
    List.replicate (padded value - value.length) 0

theorem length_extField (typ : ℕ) (value : Bytes) :
    (extField typ value).length = sizeExtHeader + padded value := by
  simp only [extField, length_append, View.length_split16, length_replicate, padded, sizeExtHeader]
  omega

theorem nextExtField_field (field : ExtField) (more : Bytes) :
    nextExtField (field.buf ++ more) = .ok (some (field, field.buf.length)) := by
  have hheaded := field.headed
  have hword : wordAt (field.buf ++ more) 2 = field.buf.length := by
    rw [wordAt_append (by unfold sizeExtHeader at hheaded; omega), field.sized]
  have hlen : (field.buf ++ more).length = field.buf.length + more.length := length_append
  unfold sizeExtHeader at hheaded
  unfold nextExtField
  rw [if_neg (by omega), if_neg (by unfold sizeExtHeader; omega),
    dif_neg (by unfold sizeExtHeader; omega), dif_neg (by rw [hword, field.aligned]; simp),
    dif_neg (by omega)]
  simp only [hword, take_left]

/-- A field that was appended is read back, its value with the padding. -/
theorem nextExtField_extField {typ : ℕ} {value : Bytes} (htyp : typ < 65536)
    (hsize : sizeExtHeader + padded value ≤ 65535) : ∃ ef : ExtField, ef.type = typ ∧
      ef.value = value ++ replicate (padded value - value.length) 0 ∧
      ∀ rest, nextExtField (extField typ value ++ rest) =
        .ok (some (ef, (extField typ value).length)) := by
  have hlen := length_extField typ value
  have hword0 : wordAt (extField typ value) 0 = typ := by
    have h := wordAt_split16 [] typ (View.split16 (sizeExtHeader + padded value) ++ (value ++
      replicate (padded value - value.length) 0))
    rw [Nat.mod_eq_of_lt htyp, nil_append, length_nil] at h
    exact h
  have hword2 : wordAt (extField typ value) 2 = (extField typ value).length := by
    have h := wordAt_split16 (View.split16 typ) (sizeExtHeader + padded value) (value ++
      replicate (padded value - value.length) 0)
    rw [Nat.mod_eq_of_lt (by omega), View.length_split16] at h
    rw [hlen, extField, append_assoc, append_assoc]
    exact h
  have haligned : padded value % 4 = 0 := Nat.mul_mod_left _ _
  have hheader : sizeExtHeader = 4 := rfl
  refine ⟨⟨extField typ value, by omega, by omega, hword2⟩, hword0, ?_, ?_⟩
  · rw [ExtField.value_eq]
    rfl
  · exact nextExtField_field ⟨extField typ value, by omega, by omega, hword2⟩

/-- `data` is what the slice holds: the start of the carrier, until an append that does not fit
moves it. -/
structure Growing where
  carrier : Bytes
  data : Bytes
  inPlace : Bool
deriving DecidableEq, Repr

namespace Growing

def append (g : Growing) (more : Bytes) : Growing :=
  if g.inPlace = true ∧ g.data.length + more.length ≤ g.carrier.length then
    { g with carrier := blit g.carrier g.data.length more, data := g.data ++ more }
  else { g with data := g.data ++ more, inPlace := false }

structure Shown (g : Growing) : Prop where
  inPlace : g.inPlace = true
  fits : g.data.length ≤ g.carrier.length
  eq : g.carrier.take g.data.length = g.data

theorem Shown.append {g : Growing} (h : g.Shown) {more : Bytes}
    (hfits : g.data.length + more.length ≤ g.carrier.length) :
    (g.append more).Shown ∧ (g.append more).data = g.data ++ more ∧
      (g.append more).carrier.length = g.carrier.length := by
  have heq : g.append more =
      { g with carrier := blit g.carrier g.data.length more, data := g.data ++ more } :=
    if_pos ⟨h.inPlace, hfits⟩
  have hlen : (blit g.carrier g.data.length more).length = g.carrier.length :=
    NtpFrame.length_put _ _ _
  rw [heq]
  refine ⟨⟨h.inPlace, ?_, ?_⟩, rfl, hlen⟩
  · rw [hlen, length_append]
    exact hfits
  have hread := read_blit_extend g.carrier 0 g.data.length more (by omega)
  simp only [Regions.read, drop_zero, Nat.zero_add] at hread
  simp only [length_append, hread, h.eq]

def pad : ℕ → Growing → Growing
  | 0, g => g
  | n + 1, g => pad n (g.append [0])

theorem Shown.pad : ∀ (n : ℕ) {g : Growing}, g.Shown → g.data.length + n ≤ g.carrier.length →
    (Growing.pad n g).Shown ∧ (Growing.pad n g).data = g.data ++ replicate n 0 ∧
      (Growing.pad n g).carrier.length = g.carrier.length := by
  intro n
  induction n with
  | zero =>
    intro g h _
    exact ⟨h, by rw [replicate_zero, append_nil]; rfl, rfl⟩
  | succ n ih =>
  intro g h hfits
  obtain ⟨h₁, hdata₁, hlen₁⟩ := @Shown.append g h [0] (by rw [length_singleton]; omega)
  have hfits₁ : (g.append [0]).data.length + n ≤ (g.append [0]).carrier.length := by
    rw [hlen₁, hdata₁, length_append, length_singleton]
    omega
  obtain ⟨h₂, hdata₂, hlen₂⟩ := ih h₁ hfits₁
  refine ⟨h₂, ?_, hlen₂.trans hlen₁⟩
  rw [Growing.pad, hdata₂, hdata₁, append_assoc, replicate_succ, singleton_append]

/-- `AppendExtField`; nothing where the length does not fit its field, at which the source
panics. -/
def appendExtField (g : Growing) (typ : ℕ) (value : Bytes) : Option Growing :=
  if 0xFFFF < sizeExtHeader + padded value then none
  else
    let g := g.append (View.split16 typ ++ View.split16 (sizeExtHeader + padded value))
    let g := g.append value
    some (pad (padded value - value.length) g)

theorem Shown.appendExtField {g : Growing} (h : g.Shown) {typ : ℕ} {value : Bytes}
    (hsize : sizeExtHeader + padded value ≤ 65535)
    (hfits : g.data.length + (sizeExtHeader + padded value) ≤ g.carrier.length) :
    ∃ g', g.appendExtField typ value = some g' ∧ g'.Shown ∧ g'.data = g.data ++ extField typ value ∧
      g'.carrier.length = g.carrier.length := by
  have hpadded : value.length ≤ padded value := by
    unfold padded
    omega
  have hheader : (View.split16 typ ++ View.split16 (sizeExtHeader + padded value)).length =
      sizeExtHeader := by
    rfl
  obtain ⟨h₁, hdata₁, hlen₁⟩ := h.append (by rw [hheader]; omega)
  have hsize₁ := congrArg length hdata₁
  rw [length_append, hheader] at hsize₁
  obtain ⟨h₂, hdata₂, hlen₂⟩ := @Shown.append _ h₁ value (by omega)
  have hsize₂ := congrArg length hdata₂
  rw [length_append] at hsize₂
  obtain ⟨h₃, hdata₃, hlen₃⟩ := h₂.pad (padded value - value.length) (by omega)
  refine ⟨_, if_neg (by omega), h₃, ?_, hlen₃.trans (hlen₂.trans hlen₁)⟩
  rw [hdata₃, hdata₂, hdata₁]
  simp only [extField, append_assoc]

end Growing

end Lneto.NtpExtensions
