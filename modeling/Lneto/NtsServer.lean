import Lneto.NtpExtensions
import Lneto.NtpServer

/-!
The authenticated time server. It checks the authenticator of a request, hands the
request to the time server below and keeps the unique identifier of the last request
in one slot, which goes into the next response.
-/
namespace Lneto.NtsServer

open NtpFrame NtpExtensions NtpServer GuardedRuns Regions CircularBuffers
open NtpServer.Server (transmitTimeAt)
open Views (View carried carried_ok carried_inside wordAt wordAt_split16)

/-- A cipher that opens what it sealed. -/
structure Aead where
  nonceSize : ℕ
  overhead : ℕ
  sealUp : Bytes → Bytes → Bytes → Bytes
  openUp : Bytes → Bytes → Bytes → Option Bytes
  /-- It panics when a nonce of another size is given to it, as the ciphers of the standard library
  do. -/
  strict : Bool
  length_sealUp : ∀ nonce plain data, nonce.length = nonceSize →
    (sealUp nonce plain data).length = plain.length + overhead
  openUp_sealUp : ∀ nonce plain data, nonce.length = nonceSize →
    openUp nonce (sealUp nonce plain data) data = some plain

inductive Panic where
  | bounds
  | nonceSize
  | fieldSize
deriving DecidableEq, Repr

/-- `Open` -/
def Aead.unseal (c : Aead) (nonce ciphertext data : Bytes) : Except Panic (Option Bytes) :=
  if nonce.length ≠ c.nonceSize ∧ c.strict = true then .error .nonceSize
  else .ok (c.openUp nonce ciphertext data)

/-- Two lengths, the nonce and what was sealed. -/
def Aead.body (c : Aead) (nonce plain aad : Bytes) : Bytes :=
  View.split16 c.nonceSize ++ View.split16 (plain.length + c.overhead) ++ nonce ++
    c.sealUp nonce plain aad

def maxNonceLen : ℕ := 16

def maxAuthBody : ℕ := 4 + maxNonceLen + 32

def minServerCarrierRoom : ℕ := sizeHeader + (4 + 32) + (4 + maxAuthBody + 3)

structure PendingNTS where
  uid : Bytes
  short : uid.length ≤ 32
  aligned : uid.length % 4 = 0

def PendingNTS.empty : PendingNTS := ⟨[], Nat.zero_le 32, rfl⟩

def PendingNTS.ofField (field : ExtField) : PendingNTS :=
  ⟨field.value.take 32, by rw [List.length_take]; omega, by
    have haligned := field.value_aligned
    rw [List.length_take]
    omega⟩

def noteUniqueID (p : PendingNTS) (field : ExtField) : PendingNTS :=
  if field.type = extNTSUniqueID then .ofField field else p

/-- What is needed to open the authenticator of a packet. -/
structure Sealed where
  nonce : Bytes
  ciphertext : Bytes
  aad : Bytes

def findAuthField : ℕ → Bytes → ℕ → Except Err (ℕ × ExtField)
  | 0, _, _ => .error .mismatch
  | fuel + 1, rest, off =>
    match nextExtField rest with
    | .error e => .error e
    | .ok none => .error .mismatch
    | .ok (some (field, n)) =>
      if field.type = extNTSAuthAndEEF then .ok (off, field)
      else findAuthField fuel (rest.drop n) (off + n)

/-- The authenticator of a packet, which covers all that stands before it. -/
def readAuth (frm : Frame) : Except Err Sealed := do
  let payload := frm.extensionFields
  let (authOffset, authField) ← findAuthField payload.length payload 0
  let body := authField.value
  if body.length < 4 then .error .truncatedFrame
  else if body.length < 4 + wordAt body 0 + wordAt body 2 then .error .truncatedFrame
  else
    return { nonce := read body ⟨4, wordAt body 0⟩
             ciphertext := read body ⟨4 + wordAt body 0, wordAt body 2⟩
             aad := frm.buf.take (sizeHeader + authOffset) }

structure Server where
  connID : UInt64
  c2s : Aead
  s2c : Aead
  ntpState : NtpServer.Server
  pending : PendingNTS
  hasPending : Bool
  fits : s2c.nonceSize ≤ maxNonceLen

structure ServerConfig where
  c2s : Option Aead
  s2c : Option Aead
  stratum : UInt8 := 0
  prec : UInt8 := 0
  refID : Vector UInt8 4 := #v[0, 0, 0, 0]

open List

structure Emission where
  n : ℕ
  carrier : Bytes

def below {α : Type} (x : Except Views.Fault α) : Except Panic α := x.mapError fun _ => .bounds

theorem below_ok {α : Type} {x : Except Views.Fault α} {a : α} (h : below x = .ok a) :
    x = .ok a := by
  cases x with
  | error e => cases h
  | ok b =>
    cases h
    rfl

namespace Server

def reset (connID : UInt64) (cfg : ServerConfig) : Except Err Server :=
  match cfg.c2s, cfg.s2c with
  | some c2s, some s2c =>
    if h : maxNonceLen < c2s.nonceSize ∨ maxNonceLen < s2c.nonceSize then .error .invalidConfig
    else do
      let ntpState ← NtpServer.blank.reset
        { stratum := cfg.stratum, precision := cfg.prec, refID := cfg.refID }
      return { connID := connID + 1, c2s, s2c, ntpState, pending := .empty, hasPending := false
               fits := not_lt.1 fun hlt => h (.inr hlt) }
  | _, _ => .error .invalidConfig

def demux (s : Server) (carrierData : Bytes) (frameOffset : ℤ) :
    Except Panic (Server × Option Err) := do
  let buf ← below (carried carrierData frameOffset)
  match newFrame buf with
  | .error e => return (s, some e)
  | .ok frm =>
    let payload := frm.extensionFields
    if payload.length = 0 then return (s, some .mismatch)
    else
      let p := visitFields noteUniqueID payload.length payload .empty
      match readAuth frm with
      | .error e => return (s, some e)
      | .ok auth =>
        match ← s.c2s.unseal auth.nonce auth.ciphertext auth.aad with
        | none => return (s, some .badCRC)
        | some _ =>
          match ← below (s.ntpState.demux carrierData frameOffset) with
          | (ntpState, some e) => return ({ s with ntpState }, some e)
          | (ntpState, none) => return ({ s with ntpState, pending := p, hasPending := true }, none)

/-- The plaintext of the authenticator: a cookie, if there is one. -/
def plaintext (cookie : Bytes) : Except Panic Bytes :=
  if cookie.length = 0 then .ok []
  else if 0xFFFF < sizeExtHeader + padded cookie then .error .fieldSize
  else .ok (extField extNTSCookie cookie)

def authBody (s : Server) (nonce plain aad : Bytes) : Except Panic Bytes :=
  if maxAuthBody + 512 < 4 + s.s2c.nonceSize + (s.s2c.sealUp nonce plain aad).length then
    .error .bounds
  else .ok (s.s2c.body nonce plain aad)

def appendField (g : Growing) (typ : ℕ) (value : Bytes) : Except Panic Growing :=
  match g.appendExtField typ value with
  | none => .error .fieldSize
  | some g => .ok g

def echo (g : Growing) (uid : Bytes) : Except Panic Growing :=
  if 0 < uid.length then appendField g extNTSUniqueID uid else .ok g

/-- The random source may fail; the cookie is what `MakeCookie` returns, or empty. -/
def encapsulate (s : Server) (now : ℤ) (rand : Option (ℕ → UInt8)) (cookie carrierData : Bytes)
    (offsetToFrame : ℤ) : Except Panic (Server × Except Err (Option Emission)) :=
  if s.hasPending = false then .ok (s, .ok none)
  else if (carrierData.length : ℤ) - offsetToFrame < minServerCarrierRoom then
    .ok (s, .error .shortBuffer)
  else do
    match ← below (s.ntpState.encapsulate now carrierData offsetToFrame) with
    | (ntpState, .error e) => return ({ s with ntpState }, .error e)
    | (ntpState, .ok none) => return ({ s with ntpState }, .ok none)
    | (ntpState, .ok (some frm)) =>
      let g : Growing := { carrier := frm.buf, data := frm.buf.take sizeHeader, inPlace := true }
      let g ← echo g s.pending.uid
      match rand with
      | none => return ({ s with ntpState }, .error .noRandom)
      | some bytes =>
        let nonce := (List.range s.s2c.nonceSize).map bytes
        let plain ← plaintext cookie
        let body ← s.authBody nonce plain g.data
        let g ← appendField g extNTSAuthAndEEF body
        return ({ s with ntpState, hasPending := false },
          .ok (some { n := g.data.length, carrier := g.carrier }))

end Server

def uniqueID (payload : Bytes) : Bytes :=
  visitFields (fun uid field => if field.type = extNTSUniqueID then field.value else uid)
    payload.length payload []

def uniqueIDAt (carrierData : Bytes) (offset : ℤ) : Bytes :=
  uniqueID ((carrierData.drop offset.toNat).drop sizeHeader)

theorem noted_uid (payload : Bytes) :
    (visitFields noteUniqueID payload.length payload .empty).uid = (uniqueID payload).take 32 := by
  let cut : Bytes → ExtField → Bytes := fun uid field =>
    if field.type = extNTSUniqueID then field.value.take 32 else uid
  have hnoted : ∀ (p : PendingNTS) (field : ExtField),
    (noteUniqueID p field).uid = cut p.uid field := by
    intro p field
    by_cases htype : field.type = extNTSUniqueID
    · simp only [noteUniqueID, cut, if_pos htype, PendingNTS.ofField]
    · simp only [noteUniqueID, cut, if_neg htype]
  have hcut : ∀ (uid : Bytes) (field : ExtField),
      (if field.type = extNTSUniqueID then field.value else uid).take 32 =
        cut (uid.take 32) field := by
    intro uid field
    by_cases htype : field.type = extNTSUniqueID
    · simp only [cut, if_pos htype]
    · simp only [cut, if_neg htype]
  rw [visitFields_map hnoted, uniqueID, visitFields_map hcut]
  rfl

def Opens (c : Aead) (frm : Frame) : Prop :=
  ∃ auth plain, readAuth frm = .ok auth ∧
    c.unseal auth.nonce auth.ciphertext auth.aad = .ok (some plain)

/-- A packet that the server takes while it has room. -/
def Valid (s : Server) (carrierData : Bytes) (frameOffset : ℤ) : Prop :=
  ∃ buf frm, carried carrierData frameOffset = .ok buf ∧ newFrame buf = .ok frm ∧ Opens s.c2s frm ∧
    frm.mode = modeClient ∧ frm.version = version4

namespace Server

theorem demux_cases {s s' : Server} {carrierData : Bytes} {frameOffset : ℤ} {r : Option Err}
    (hrun : s.demux carrierData frameOffset = .ok (s', r)) : (s' = s ∧ r ≠ none) ∨
      (r = none ∧ ∃ room p, s' = { s with
          ntpState := s.ntpState.push (transmitTimeAt carrierData frameOffset) room
          pending := p
          hasPending := true } ∧
        p.uid = (uniqueIDAt carrierData frameOffset).take 32) := by
  obtain ⟨buf, hbuf, hrun⟩ := ok_bind hrun
  obtain ⟨-, -, rfl⟩ := carried_ok (below_ok hbuf)
  cases hframe : newFrame (carrierData.drop frameOffset.toNat) with
  | error e =>
    rw [hframe] at hrun
    cases hrun
    exact .inl ⟨rfl, by simp⟩
  | ok frm =>
  rw [hframe] at hrun
  simp only at hrun
  by_cases hempty : frm.extensionFields.length = 0
  · rw [if_pos hempty] at hrun
    cases hrun
    exact .inl ⟨rfl, by simp⟩
  rw [if_neg hempty] at hrun
  cases hauth : readAuth frm with
  | error e =>
    rw [hauth] at hrun
    cases hrun
    exact .inl ⟨rfl, by simp⟩
  | ok auth =>
  rw [hauth] at hrun
  obtain ⟨plain, -, hrun⟩ := ok_bind hrun
  cases plain with
  | none =>
    cases hrun
    exact .inl ⟨rfl, by simp⟩
  | some plain =>
  obtain ⟨⟨ntpState, r'⟩, hntp, hrun⟩ := ok_bind hrun
  obtain ⟨rfl, hr⟩ | ⟨room, rfl, rfl⟩ := NtpServer.Server.demux_cases (below_ok hntp)
  · obtain ⟨e, rfl⟩ := Option.ne_none_iff_exists'.1 hr
    cases hrun
    exact .inl ⟨rfl, by simp⟩
  cases hrun
  refine .inr ⟨rfl, room, _, rfl, ?_⟩
  rw [noted_uid, Frame.extensionFields, newFrame_ok hframe]
  rfl

theorem demux_takes {s : Server} {carrierData : Bytes} {frameOffset : ℤ}
    (hvalid : Valid s carrierData frameOffset)
    (room : s.ntpState.pending.length ≠ s.ntpState.capacity) :
    ∃ s', s.demux carrierData frameOffset = .ok (s', none) := by
  obtain ⟨buf, frm, hbuf, hframe, ⟨auth, plain, hauth, hopen⟩, hmode, hversion⟩ := hvalid
  have hntp := NtpServer.Server.demux_takes hbuf hframe hmode hversion room
  have hpayload : frm.extensionFields.length ≠ 0 := by
    intro hnil
    rw [readAuth, hnil] at hauth
    cases hauth
  simp only [demux, hbuf, below, Except.mapError, ok_then, hframe, if_neg hpayload, hauth,
    hopen, hntp]
  exact ⟨_, rfl⟩

end Server

def uidField (uid : Bytes) : Bytes :=
  if 0 < uid.length then extField extNTSUniqueID uid else []

theorem padded_aligned {value : Bytes} (h : value.length % 4 = 0) :
    padded value = value.length := by
  unfold padded
  omega

theorem visitFields_nil {σ : Type} (fn : σ → ExtField → σ) (fuel : ℕ) (s : σ) :
    visitFields fn fuel [] s = s := by
  cases fuel with
  | zero | succ => rfl

theorem nextExtField_last {body : Bytes} (hbody : sizeExtHeader + padded body ≤ 65535) :
    ∃ ef : ExtField, ef.type = extNTSAuthAndEEF ∧
      ef.value = body ++ replicate (padded body - body.length) 0 ∧
      nextExtField (extField extNTSAuthAndEEF body) =
        .ok (some (ef, (extField extNTSAuthAndEEF body).length)) := by
  obtain ⟨ef, htype, hvalue, hnext⟩ :=
    @nextExtField_extField extNTSAuthAndEEF body (by decide) hbody
  exact ⟨ef, htype, hvalue, by simpa only [append_nil] using hnext []⟩

theorem nextExtField_uniqueID {uid : Bytes} (haligned : uid.length % 4 = 0)
    (huid : sizeExtHeader + uid.length ≤ 65535) (rest : Bytes) :
    ∃ ef : ExtField, ef.type = extNTSUniqueID ∧ ef.value = uid ∧
      nextExtField (extField extNTSUniqueID uid ++ rest) =
        .ok (some (ef, (extField extNTSUniqueID uid).length)) := by
  have hpadded := padded_aligned haligned
  obtain ⟨ef, htype, hvalue, hnext⟩ :=
    @nextExtField_extField extNTSUniqueID uid (by decide) (by omega)
  rw [hpadded, Nat.sub_self, replicate_zero, append_nil] at hvalue
  exact ⟨ef, htype, hvalue, hnext rest⟩

theorem exists_fuel (type : ℕ) (value : Bytes) {n : ℕ} (hn : n ≤ sizeExtHeader) :
    ∃ fuel, (extField type value).length = fuel + n := by
  have hlen := length_extField type value
  exact ⟨_, (Nat.sub_add_cancel (by omega)).symm⟩

section
variable {uid body : Bytes} (haligned : uid.length % 4 = 0)
  (huid : sizeExtHeader + uid.length ≤ 65535) (hbody : sizeExtHeader + padded body ≤ 65535)
include haligned huid hbody

theorem uniqueID_response : uniqueID (uidField uid ++ extField extNTSAuthAndEEF body) = uid := by
  obtain ⟨ef₂, htype₂, -, hnext⟩ := nextExtField_last hbody
  have hother : ef₂.type ≠ extNTSUniqueID := by
    rw [htype₂]
    decide
  have hlast : ∀ (fuel : ℕ) (s : Bytes), visitFields
      (fun uid field => if field.type = extNTSUniqueID then field.value else uid) (fuel + 1)
      (extField extNTSAuthAndEEF body) s = s := by
    intro fuel s
    simp only [visitFields, hnext, drop_length, visitFields_nil, if_neg hother]
  obtain ⟨fuel, hfuel⟩ := exists_fuel extNTSAuthAndEEF body (by decide : 2 ≤ sizeExtHeader)
  unfold uniqueID uidField
  by_cases hpos : 0 < uid.length
  · obtain ⟨ef₁, htype₁, hvalue₁, hnext₁⟩ :=
      nextExtField_uniqueID haligned huid (extField extNTSAuthAndEEF body)
    rw [if_pos hpos, length_append, hfuel, ← Nat.add_assoc, visitFields, hnext₁]
    simp only [drop_left, htype₁, if_true, hlast, hvalue₁]
  · have hnil : uid = [] := eq_nil_of_length_eq_zero (by omega)
    rw [if_neg hpos, nil_append, hfuel, hlast, hnil]

theorem findAuthField_response :
    ∃ ef : ExtField, ef.value = body ++ replicate (padded body - body.length) 0 ∧
      findAuthField (uidField uid ++ extField extNTSAuthAndEEF body).length
        (uidField uid ++ extField extNTSAuthAndEEF body) 0 = .ok ((uidField uid).length, ef) := by
  obtain ⟨ef₂, htype₂, hvalue₂, hnext⟩ := nextExtField_last hbody
  have hlast : ∀ (fuel off : ℕ), findAuthField (fuel + 1) (extField extNTSAuthAndEEF body) off =
      .ok (off, ef₂) := by
    intro fuel off
    simp only [findAuthField, hnext, htype₂, if_true]
  obtain ⟨fuel, hfuel⟩ := exists_fuel extNTSAuthAndEEF body (by decide : 2 ≤ sizeExtHeader)
  refine ⟨ef₂, hvalue₂, ?_⟩
  unfold uidField
  by_cases hpos : 0 < uid.length
  · obtain ⟨ef₁, htype₁, -, hnext₁⟩ :=
      nextExtField_uniqueID haligned huid (extField extNTSAuthAndEEF body)
    have hother : ef₁.type ≠ extNTSAuthAndEEF := by
      rw [htype₁]
      decide
    rw [if_pos hpos, length_append, hfuel, ← Nat.add_assoc, findAuthField, hnext₁]
    simp only [drop_left, if_neg hother, hlast, Nat.zero_add]
  · rw [if_neg hpos, nil_append, hfuel, hlast]
    rfl

end

theorem Aead.length_body (c : Aead) {nonce : Bytes} (plain aad : Bytes)
    (hnonce : nonce.length = c.nonceSize) :
    (c.body nonce plain aad).length = 4 + c.nonceSize + (plain.length + c.overhead) := by
  simp only [Aead.body, length_append, View.length_split16, c.length_sealUp _ _ _ hnonce, hnonce]

theorem Aead.body_parts (c : Aead) {nonce plain aad : Bytes} (pad : Bytes)
    (hnonce : nonce.length = c.nonceSize)
    (hsize : 4 + c.nonceSize + (plain.length + c.overhead) < 65536) :
    wordAt (c.body nonce plain aad ++ pad) 0 = c.nonceSize ∧
      wordAt (c.body nonce plain aad ++ pad) 2 = plain.length + c.overhead ∧
      read (c.body nonce plain aad ++ pad) ⟨4, c.nonceSize⟩ = nonce ∧
      read (c.body nonce plain aad ++ pad) ⟨4 + c.nonceSize, plain.length + c.overhead⟩ =
        c.sealUp nonce plain aad := by
  have hsealed := c.length_sealUp nonce plain aad hnonce
  have hsplit : c.body nonce plain aad ++ pad =
      (View.split16 c.nonceSize ++ View.split16 (plain.length + c.overhead)) ++
        (nonce ++ (c.sealUp nonce plain aad ++ pad)) := by
    simp only [Aead.body, append_assoc]
  have hfront : (View.split16 c.nonceSize ++ View.split16 (plain.length + c.overhead)).length = 4 :=
    rfl
  refine ⟨?_, ?_, ?_, ?_⟩
  · have h := wordAt_split16 [] c.nonceSize (View.split16 (plain.length + c.overhead) ++ (nonce ++
      (c.sealUp nonce plain aad ++ pad)))
    rw [Nat.mod_eq_of_lt (by omega), nil_append, length_nil] at h
    exact h
  · have h := wordAt_split16 (View.split16 c.nonceSize) (plain.length + c.overhead) (nonce ++
      (c.sealUp nonce plain aad ++ pad))
    rw [Nat.mod_eq_of_lt (by omega), View.length_split16] at h
    exact h
  · rw [hsplit, Regions.read, drop_left' hfront, take_left' hnonce]
  · rw [hsplit, Regions.read, ← drop_drop, drop_left' hfront, drop_left' hnonce, take_left' hsealed]

section
variable {c : Aead} {frm : Frame} {uid nonce plain header : Bytes}
  (hfrm : frm.buf = header ++ (uidField uid ++
    extField extNTSAuthAndEEF (c.body nonce plain (header ++ uidField uid))))
  (hheader : header.length = sizeHeader) (haligned : uid.length % 4 = 0) (huid : uid.length ≤ 32)
  (hnonce : nonce.length = c.nonceSize)
  (hsize : 4 + c.nonceSize + (plain.length + c.overhead) ≤ maxAuthBody + 512)
include hfrm hheader haligned huid hnonce hsize

theorem readAuth_response : readAuth frm = .ok {
    nonce, ciphertext := c.sealUp nonce plain (header ++ uidField uid),
    aad := header ++ uidField uid } := by
  have hmax : maxAuthBody + 512 = 564 := rfl
  have hext : sizeExtHeader = 4 := rfl
  have hlen := c.length_body plain (header ++ uidField uid) hnonce
  have hpadded : padded (c.body nonce plain (header ++ uidField uid)) ≤
      (c.body nonce plain (header ++ uidField uid)).length + 3 := by
    unfold padded
    omega
  have hpayload : frm.extensionFields = uidField uid ++
      extField extNTSAuthAndEEF (c.body nonce plain (header ++ uidField uid)) := by
    rw [Frame.extensionFields, hfrm, drop_left' hheader]
  obtain ⟨ef, hvalue, hfind⟩ := @findAuthField_response uid
    (c.body nonce plain (header ++ uidField uid)) haligned (by omega) (by omega)
  obtain ⟨hword0, hword2, hread0, hread1⟩ := @Aead.body_parts c nonce plain
    (header ++ uidField uid) (replicate
      (padded (c.body nonce plain (header ++ uidField uid)) -
        (c.body nonce plain (header ++ uidField uid)).length) 0) hnonce (by omega)
  have haad : frm.buf.take (sizeHeader + (uidField uid).length) = header ++ uidField uid := by
    rw [hfrm, ← append_assoc, take_left' (by rw [length_append, hheader])]
  have hlong : 4 + c.nonceSize + (plain.length + c.overhead) ≤ ef.value.length := by
    rw [hvalue, length_append]
    omega
  simp only [readAuth, hpayload, hfind, ok_then]
  rw [← hvalue] at hword0 hword2 hread0 hread1
  rw [if_neg (by omega), if_neg (by omega), hword0, hword2, hread0, hread1, haad]
  rfl

theorem response_reads : Opens c frm ∧ uniqueID frm.extensionFields = uid := by
  have hmax : maxAuthBody + 512 = 564 := rfl
  have hext : sizeExtHeader = 4 := rfl
  have hlen := c.length_body plain (header ++ uidField uid) hnonce
  refine ⟨⟨_, plain, readAuth_response hfrm hheader haligned huid hnonce hsize, ?_⟩, ?_⟩
  · simp only [Aead.unseal]
    rw [if_neg (fun h => h.1 hnonce), c.openUp_sealUp _ _ _ hnonce]
  rw [Frame.extensionFields, hfrm, drop_left' hheader]
  refine uniqueID_response haligned (by omega) ?_
  unfold padded
  omega

end

def plainSize (cookie : Bytes) : ℕ := if cookie.length = 0 then 0 else sizeExtHeader + padded cookie

def Server.bodySize (s : Server) (cookie : Bytes) : ℕ :=
  4 + s.s2c.nonceSize + (plainSize cookie + s.s2c.overhead)

/-- The carrier holds the largest response with this cookie. -/
def Ample (s : Server) (cookie carrierData : Bytes) (offsetToFrame : ℤ) : Prop :=
  0 ≤ offsetToFrame ∧ offsetToFrame + minServerCarrierRoom ≤ carrierData.length ∧
    offsetToFrame + (sizeHeader + (sizeExtHeader + 32) +
      (sizeExtHeader + (s.bodySize cookie + 3) / 4 * 4) : ℕ) ≤ carrierData.length

theorem plaintext_ok {cookie : Bytes} (h : plainSize cookie ≤ 65535) :
    ∃ plain, Server.plaintext cookie = .ok plain ∧ plain.length = plainSize cookie := by
  unfold Server.plaintext plainSize at *
  by_cases hnil : cookie.length = 0
  · rw [if_pos hnil, if_pos hnil]
    exact ⟨[], rfl, rfl⟩
  rw [if_neg hnil] at h
  rw [if_neg hnil, if_neg hnil, if_neg (by omega)]
  exact ⟨_, rfl, length_extField _ _⟩

theorem shown_header (frm : Frame) : (⟨frm.buf, frm.buf.take sizeHeader, true⟩ :
    Growing).Shown where
  inPlace := rfl
  fits := length_take_le' _ _
  eq := by
    rw [length_take, Nat.min_eq_left frm.whole]

theorem appendField_shown {g : Growing} (h : g.Shown) {typ : ℕ} {value : Bytes}
    (hsize : sizeExtHeader + padded value ≤ 65535)
    (hfits : g.data.length + (sizeExtHeader + padded value) ≤ g.carrier.length) :
    ∃ g', Server.appendField g typ value = .ok g' ∧ g'.Shown ∧
      g'.data = g.data ++ extField typ value ∧ g'.carrier.length = g.carrier.length := by
  obtain ⟨g', happend, hshown, hdata, hlen⟩ := h.appendExtField hsize hfits
  exact ⟨g', by rw [Server.appendField, happend], hshown, hdata, hlen⟩

theorem length_uidField {uid : Bytes} (haligned : uid.length % 4 = 0) :
    (uidField uid).length ≤ sizeExtHeader + uid.length := by
  unfold uidField
  split_ifs with hpos
  · rw [length_extField, padded_aligned haligned]
  · exact Nat.zero_le _

theorem echo_shown {g : Growing} (h : g.Shown) {uid : Bytes} (haligned : uid.length % 4 = 0)
    (hshort : uid.length ≤ 32)
    (hfits : g.data.length + (sizeExtHeader + uid.length) ≤ g.carrier.length) :
    ∃ g', Server.echo g uid = .ok g' ∧ g'.Shown ∧ g'.data = g.data ++ uidField uid ∧
      g'.carrier.length = g.carrier.length := by
  have hext : sizeExtHeader = 4 := rfl
  have hpadded := padded_aligned haligned
  unfold uidField Server.echo
  by_cases hpos : 0 < uid.length
  · rw [if_pos hpos, if_pos hpos]
    exact appendField_shown h (by omega) (by omega)
  · rw [if_neg hpos, if_neg hpos, append_nil]
    exact ⟨g, rfl, h, rfl, rfl⟩

/-- A call with all it needs answers the newest request, with the identifier in the slot. -/
theorem Server.encapsulate_answers {s : Server} {now : ℤ} {bytes : ℕ → UInt8}
    {cookie carrierData : Bytes} {offsetToFrame : ℤ} {origin xmt : Timestamp}
    (hpending : s.hasPending) (hlast : s.ntpState.pending.getLast? = some origin)
    (hstamp : stamp now = .ok xmt) (hample : Ample s cookie carrierData offsetToFrame)
    (hbody : s.bodySize cookie ≤ maxAuthBody + 512) :
    ∃ e frm, s.encapsulate now (some bytes) cookie carrierData offsetToFrame =
        .ok ({ s with ntpState := s.ntpState.pop, hasPending := false }, .ok (some e)) ∧
      newFrame (e.carrier.take e.n) = .ok frm ∧ Opens s.s2c frm ∧
      uniqueID frm.extensionFields = s.pending.uid ∧ frm.originTime = origin := by
  obtain ⟨hlow, hroom, hfits⟩ := hample
  have hmax : maxAuthBody + 512 = 564 := rfl
  have hext : sizeExtHeader = 4 := rfl
  have hhead : sizeHeader = 48 := rfl
  have hmin : minServerCarrierRoom = 143 := rfl
  have hshort := s.pending.short
  have haligned := s.pending.aligned
  have hbuf := carried_inside hlow (show offsetToFrame ≤ carrierData.length by omega)
  have hlen : (carrierData.drop offsetToFrame.toNat).length =
      carrierData.length - offsetToFrame.toNat := length_drop
  have hwhole : sizeHeader ≤ (carrierData.drop offsetToFrame.toNat).length := by omega
  have hsends := Server.encapsulate_sends hlast hbuf (newFrame_whole hwhole) hstamp
  have horigin := (s.ntpState.answer_times ⟨_, hwhole⟩ origin xmt).1
  have hanswer := s.ntpState.length_answer ⟨_, hwhole⟩ origin xmt
  generalize s.ntpState.answer ⟨_, hwhole⟩ origin xmt = frm at hsends horigin hanswer
  simp only at hanswer
  have hheader : (frm.buf.take sizeHeader).length = sizeHeader := length_take_of_le frm.whole
  obtain ⟨plain, hplain, hplainSize⟩ := @plaintext_ok cookie (by unfold bodySize at hbody; omega)
  have hnonce : ((range s.s2c.nonceSize).map bytes).length = s.s2c.nonceSize := by
    rw [length_map, length_range]
  obtain ⟨nonce, hdrawn⟩ : ∃ nonce, (range s.s2c.nonceSize).map bytes = nonce := ⟨_, rfl⟩
  rw [hdrawn] at hnonce
  obtain ⟨g₁, happend₁, hshown₁, hdata₁, hlen₁⟩ := echo_shown (shown_header frm) haligned hshort
    (by simp only; omega)
  simp only at hdata₁ hlen₁
  have huid := length_uidField haligned
  have hsize₁ := congrArg length hdata₁
  rw [length_append] at hsize₁
  have hbodyLen := s.s2c.length_body plain g₁.data hnonce
  have hauth : s.authBody nonce plain g₁.data = .ok (s.s2c.body nonce plain g₁.data) := by
    have hsealed := s.s2c.length_sealUp nonce plain g₁.data hnonce
    refine if_neg ?_
    unfold bodySize at hbody
    omega
  have hpadded : padded (s.s2c.body nonce plain g₁.data) = (s.bodySize cookie + 3) / 4 * 4 := by
    rw [padded, hbodyLen, hplainSize]
    rfl
  obtain ⟨g₂, happend₂, hshown₂, hdata₂, hlen₂⟩ := @appendField_shown g₁ hshown₁ extNTSAuthAndEEF
    (s.s2c.body nonce plain g₁.data) (by omega) (by omega)
  have hresponse : g₂.data = frm.buf.take sizeHeader ++ (uidField s.pending.uid ++
      extField extNTSAuthAndEEF
        (s.s2c.body nonce plain (frm.buf.take sizeHeader ++ uidField s.pending.uid))) := by
    rw [hdata₂, hdata₁, append_assoc]
  have hframe₂ : sizeHeader ≤ g₂.data.length := by
    rw [hresponse, length_append, hheader]
    omega
  refine ⟨⟨g₂.data.length, g₂.carrier⟩, ⟨g₂.data, hframe₂⟩, ?_, ?_, ?_⟩
  · unfold encapsulate
    rw [if_neg (by rw [hpending]; decide), if_neg (by omega)]
    simp only [below, hsends, Except.mapError, ok_then, happend₁, hdrawn, hplain, hauth, happend₂]
    rfl
  · simp only [hshown₂.eq]
    exact newFrame_whole hframe₂
  obtain ⟨hopens, hunique⟩ := @response_reads s.s2c ⟨g₂.data, hframe₂⟩ _ _ _ _ hresponse hheader
    haligned hshort hnonce (by unfold bodySize at hbody; omega)
  refine ⟨hopens, hunique, ?_⟩
  rw [← horigin]
  exact Frame.timeAt_header frm _ (by decide) hresponse

end Lneto.NtsServer
