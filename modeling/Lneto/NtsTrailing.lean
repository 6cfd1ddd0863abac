import Lneto.NtsReplies

/-!
Two requests that agree up to their authenticator. What follows it is not authenticated, but the
server looks there for the unique identifier too.
-/
namespace Lneto.NtsTrailing

open NtpFrame NtpExtensions NtsServer NtsReplies GuardedRuns Regions CircularBuffers List
open Views (carried carried_inside carried_ok wordAt wordAt_append)

variable {buf more : Bytes} {n off i : ℕ} {field auth : ExtField}

theorem nextExtField_split (h : nextExtField buf = .ok (some (field, n))) :
    n = field.buf.length ∧ buf = field.buf ++ buf.drop n := by
  unfold nextExtField at h
  split_ifs at h with h0 h4 hshort hodd hlong
  · cases h
  cases h
  exact ⟨(length_take_of_le (not_lt.1 hlong)).symm, (take_append_drop _ _).symm⟩

/-- The authenticator is found where it is, whatever follows it. -/
theorem findAuthField_append (more : Bytes) : ∀ (fuel f : ℕ) (buf : Bytes) (off : ℕ), fuel ≤ f →
    findAuthField fuel buf off = .ok (i, auth) →
      findAuthField f (buf ++ more) off = .ok (i, auth) := by
  intro fuel
  induction fuel with
  | zero => intro _ _ _ _ h; cases h
  | succ fuel ih =>
  intro f buf off hf h
  obtain ⟨f, rfl⟩ : ∃ k, f = k + 1 := ⟨f - 1, by omega⟩
  unfold findAuthField at h ⊢
  cases hnext : nextExtField buf with
  | error e => simp [hnext] at h
  | ok r =>
  cases r with
  | none => simp [hnext] at h
  | some r =>
  obtain ⟨field, n⟩ := r
  obtain ⟨rfl, hsplit⟩ := nextExtField_split hnext
  have hlen := congrArg length hsplit
  rw [length_append] at hlen
  have hboth : nextExtField (buf ++ more) = .ok (some (field, field.buf.length)) := by
    rw [hsplit, append_assoc]
    exact nextExtField_field field _
  simp only [hnext] at h
  simp only [hboth]
  rw [drop_append_of_le_length (by omega)]
  split_ifs at h ⊢ with hauth
  · exact h
  · exact ih f _ _ (by omega) h

/-- A packet that ends with its first authenticator. -/
def EndsAuthentic (frm : Frame) : Prop :=
  (findAuthField frm.extensionFields.length frm.extensionFields 0).map
    (fun found => found.1 + found.2.buf.length) = .ok frm.extensionFields.length

def extend (frm : Frame) (more : Bytes) : Frame :=
  ⟨frm.buf ++ more, by
    have hwhole := frm.whole
    rw [length_append]
    omega⟩

theorem extensionFields_extend (frm : Frame) (more : Bytes) :
    (extend frm more).extensionFields = frm.extensionFields ++ more :=
  drop_append_of_le_length frm.whole

theorem readAuth_extend {frm : Frame} (hends : EndsAuthentic frm) (more : Bytes) :
    readAuth (extend frm more) = readAuth frm := by
  obtain ⟨⟨i, auth⟩, hfind, hend⟩ := map_ok hends
  simp only at hend
  have hwhole := frm.whole
  have hauth := findAuthField_append more _ (frm.extensionFields ++ more).length _ 0
    (by rw [length_append]; omega) hfind
  have haad : (extend frm more).buf.take (sizeHeader + i) = frm.buf.take (sizeHeader + i) := by
    rw [Frame.extensionFields, length_drop] at hend
    exact take_append_of_le_length (by omega)
  simp only [readAuth, extensionFields_extend, hauth, hfind, ok_then, haad]

theorem header_extend (frm : Frame) (more : Bytes) :
    (extend frm more).mode = frm.mode ∧ (extend frm more).version = frm.version ∧
      (extend frm more).transmitTime = frm.transmitTime := by
  have hwhole := frm.whole
  have hheader : sizeHeader = 48 := rfl
  have hbyte : (extend frm more).byteAt 0 = frm.byteAt 0 := by
    exact congrArg (Option.getD · 0) (getElem?_append_left (by omega))
  refine ⟨?_, ?_, ?_⟩
  · rw [Frame.mode, hbyte, Frame.mode]
  · rw [Frame.version, hbyte, Frame.version]
  · exact congrArg Timestamp.ofBytes (read_append more (by simp only; omega))

/-- What follows the authenticator changes nothing but the identifier that is noted. -/
theorem demux_append (s : Server) {front : Bytes} {frameOffset : ℤ} {frm : Frame}
    (hcarried : carried front frameOffset = .ok frm.buf) (hends : EndsAuthentic frm)
    (more : Bytes) : s.demux (front ++ more) frameOffset =
      (s.demux front frameOffset).map fun r => if r.2 = none then
        ({ r.1 with
            pending := visitFields noteUniqueID (frm.extensionFields ++ more).length
              (frm.extensionFields ++ more) .empty }, none)
        else r := by
  obtain ⟨hlow, hhigh, hbuf⟩ := carried_ok hcarried
  have hcarried' : carried (front ++ more) frameOffset = .ok (extend frm more).buf := by
    rw [carried_inside hlow (by rw [length_append]; omega), drop_append_of_le_length (by omega),
      ← hbuf]
    rfl
  have hauth := readAuth_extend hends more
  obtain ⟨hmode, hversion, htime⟩ := header_extend frm more
  have hframe : newFrame frm.buf = .ok frm := newFrame_whole frm.whole
  have hframe' : newFrame (extend frm more).buf = .ok (extend frm more) :=
    newFrame_whole (extend frm more).whole
  have hntp : s.ntpState.demux (front ++ more) frameOffset =
      s.ntpState.demux front frameOffset := by
    simp only [NtpServer.Server.demux, hcarried, hcarried', ok_then, hframe, hframe', hmode,
      hversion, htime]
  have hlen : frm.extensionFields.length ≠ 0 := by
    obtain ⟨⟨i, auth⟩, -, hend⟩ := map_ok hends
    have hheaded := auth.headed
    simp only [sizeExtHeader] at hend hheaded
    omega
  have hlen' : (frm.extensionFields ++ more).length ≠ 0 := by
    rw [length_append]
    omega
  simp only [Server.demux, below, hcarried, hcarried', Except.mapError, ok_then, hframe,
    hframe', if_neg hlen, if_neg hlen', hauth, hntp, extensionFields_extend]
  cases readAuth frm with
  | error e => rfl
  | ok auth =>
  dsimp only
  cases s.c2s.unseal auth.nonce auth.ciphertext auth.aad with
  | error e => rfl
  | ok plain =>
  cases plain with
  | none => rfl
  | some plain =>
  simp only [ok_then]
  cases s.ntpState.demux front frameOffset with
  | error e => rfl
  | ok r =>
  obtain ⟨ntpState, err⟩ := r
  cases err with
  | none => rfl
  | some e => rfl

/-- Requests that agree up to and including the authenticator are one to the server, if and only
if it refuses them or notes the same unique identifier, the last in the whole of each. -/
theorem trailing_bytes_ignored (s : Server) {front : Bytes} {frameOffset : ℤ} {frm : Frame}
    (hcarried : carried front frameOffset = .ok frm.buf) (hends : EndsAuthentic frm)
    (more more' : Bytes) :
    s.demux (front ++ more) frameOffset = s.demux (front ++ more') frameOffset ↔
      ((∃ s', s.demux front frameOffset = .ok (s', none)) →
        (uniqueID (frm.extensionFields ++ more)).take 32 =
          (uniqueID (frm.extensionFields ++ more')).take 32) := by
  rw [demux_append s hcarried hends more, demux_append s hcarried hends more', ← noted_uid,
    ← noted_uid]
  generalize visitFields noteUniqueID _ (_ ++ more) _ = p
  generalize visitFields noteUniqueID _ (_ ++ more') _ = p'
  cases s.demux front frameOffset with
  | error e => exact iff_of_true rfl fun ⟨_, h⟩ => nomatch h
  | ok r =>
  obtain ⟨s', err⟩ := r
  cases err with
  | some e => exact iff_of_true rfl fun ⟨_, h⟩ => nomatch h
  | none =>
  obtain ⟨uid, _, _⟩ := p
  obtain ⟨uid', _, _⟩ := p'
  constructor
  · intro h _
    exact congrArg (fun r => r.1.pending.uid) (Except.ok.inj h)
  · intro h
    cases h ⟨s', rfl⟩
    rfl

theorem trailing_bytes_ignored_cookie : sumServer.demux (request ⟨2, 7⟩ [1, 2, 3, 4] ++ []) 0 =
      sumServer.demux (request ⟨2, 7⟩ [1, 2, 3, 4] ++ extField extNTSCookie [9, 9, 9, 9]) 0 := by
  have hends : EndsAuthentic ⟨request ⟨2, 7⟩ [1, 2, 3, 4], by decide +kernel⟩ := by
    unfold EndsAuthentic
    decide +kernel
  exact (trailing_bytes_ignored sumServer rfl hends _ _).2 fun _ => by decide +kernel

/-- A second unique identifier behind the authenticator is the one echoed. -/
theorem trailing_identifier_echoed :
    ((sumServer.demux (request ⟨2, 7⟩ [1, 2, 3, 4]) 0).toOption.map fun r =>
        (r.2, r.1.pending.uid)) = some (none, [1, 2, 3, 4]) ∧
      ((sumServer.demux (request ⟨2, 7⟩ [1, 2, 3, 4] ++ uidField [9, 9, 9, 9]) 0).toOption.map
        fun r => (r.2, r.1.pending.uid)) = some (none, [9, 9, 9, 9]) := by
  decide +kernel

end Lneto.NtsTrailing
