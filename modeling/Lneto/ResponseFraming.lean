import Lneto.ExchangeResponse

/-!
What an exchange puts on the connection. A history keeps the fields staged
before the header was flushed, the status line and the body bytes. As long as no
field is staged in vain behind the flush, the fields keep their length in 16
bits and the closing line break has room, the connection takes a prefix of
status line, fields, line break and body, and all of it if nothing failed.
-/
namespace Lneto.ResponseFraming

open CircularBuffers ExchangeResponse GuardedRuns HttpHeaders KeyValues Regions List Exchange

/-- What was asked for so far, and whether a field did not fit before the flush. -/
structure History where
  status : Bytes := []
  fields : List (Bytes × Bytes) := []
  bodies : Bytes := []
  rejected : Bool := false
deriving DecidableEq, Repr

namespace History

def fieldLines (h : History) (normalizeKeys : Bool) : Bytes :=
  h.fields.flatMap fun f => stagedLine normalizeKeys f.1 f.2

def frame (h : History) (normalizeKeys : Bool) : Bytes :=
  h.status ++ h.fieldLines normalizeKeys ++ crlf ++ h.bodies

/-- A header flushed without a status has status 200. -/
def flushed (h : History) : History :=
  if h.status = [] then { h with status := statusLine 200 } else h

def staged (h : History) (fits : Bool) (key value : Bytes) : History :=
  if fits then { h with fields := h.fields ++ [(key, value)] } else { h with rejected := true }

/-- The history after a call in the state `s`. Behind the flush only body bytes count. -/
def record (h : History) (s : Exchange) : Action → History
  | .stageHeader key value =>
    if s.headerWritten then h else h.staged (s.fits key.length value.length) key value
  | .stageHeaderInt key value =>
    if s.headerWritten then h
    else h.staged (s.fits key.length (formatInt value 10).length) key (formatInt value 10)
  | .stageStatus code =>
    if s.headerWritten ∨ 1000 ≤ code.toInt then h
    else { h with status := statusLine code.toInt }
  | .flushHeader _ _ => if s.headerWritten then h else h.flushed
  | .writeBody buf _ _ _ =>
    { (if s.headerWritten then h else h.flushed) with bodies := h.bodies ++ buf }

end History

open History

def track (p : Exchange × History) (a : Action) : Except Fault (Exchange × History) :=
  (act p.1 a).map fun s => (s, p.2.record p.1 a)

def Action.isStaging : Action → Bool
  | .stageHeader _ _ | .stageHeaderInt _ _ | .stageStatus _ => true
  | .flushHeader _ _ | .writeBody _ _ _ _ => false

/-- The calls without those that stage something behind the flush. -/
def withoutLate (s : Exchange) : List Action → List Action
  | [] => []
  | a :: rest =>
    match act s a with
    | .error _ => [a]
    | .ok s' =>
      if s.headerWritten ∧ Action.isStaging a then withoutLate s' rest
      else a :: withoutLate s' rest

/-- A field staged behind the flush has room; one staged before it keeps the length of the
staged fields below 2^16. -/
def StagesWell (s : Exchange) (keyLen valueLen : ℕ) : Prop :=
  s.respErr = none →
    if s.headerWritten then s.fits keyLen valueLen = true
    else s.fits keyLen valueLen = true → s.respHeaderLen + (keyLen + valueLen + 3) < 65536

/-- The line break that closes the header has room, if the header is flushed now. -/
def FlushesWell (s : Exchange) : Prop :=
  s.headerWritten = false → s.respErr = none →
    s.respHeaderOff + s.respHeaderLen + 2 ≤ s.rawbuf.len

def Careful (s : Exchange) : Action → Prop
  | .stageHeader key value => StagesWell s key.length value.length
  | .stageHeaderInt key value => StagesWell s key.length (formatInt value 10).length
  | .stageStatus _ => True
  | .flushHeader _ _ | .writeBody _ _ _ _ => FlushesWell s

instance (s : Exchange) (k v : ℕ) : Decidable (StagesWell s k v) :=
  inferInstanceAs (Decidable (_ → if s.headerWritten then _ else _))

instance (s : Exchange) : Decidable (FlushesWell s) :=
  inferInstanceAs (Decidable (_ → _ → _))

instance (s : Exchange) (a : Action) : Decidable (Careful s a) :=
  match a with
  | .stageHeader key value => inferInstanceAs (Decidable (StagesWell s key.length value.length))
  | .stageHeaderInt key value =>
    inferInstanceAs (Decidable (StagesWell s key.length (formatInt value 10).length))
  | .stageStatus _ => isTrue trivial
  | .flushHeader _ _ | .writeBody _ _ _ _ => inferInstanceAs (Decidable (FlushesWell s))

/-- Nothing is on the wire, and the buffer holds the fields of the history. -/
structure Unflushed (s : Exchange) (h : History) : Prop where
  written : s.headerWritten = false
  silent : s.rw = {}
  rejected : h.rejected = true ↔ s.respErr ≠ none
  status : s.respErr = none → s.respTop = h.status
  bodies : s.respErr = none → h.bodies = []
  length : s.respErr = none → s.respHeaderLen = (h.fieldLines s.normalizeKeys).length
  lines : s.respErr = none →
    Regions.read s.rawbuf.mem ⟨s.respHeaderOff, s.respHeaderLen⟩ = h.fieldLines s.normalizeKeys

/-- The header was flushed; the frame is on the wire up to a write that failed. -/
structure Flushed (s : Exchange) (h : History) : Prop where
  written : s.headerWritten = true
  rejected : h.rejected = false
  failed : s.rw.failed = true ↔ s.respErr ≠ none
  stopped : s.rw.afterFailure = []
  sent : s.rw.sent <+: h.frame s.normalizeKeys
  whole : s.respErr = none → s.rw.sent = h.frame s.normalizeKeys

structure Inv (s₀ : Exchange) (p : Exchange × History) : Prop where
  around : Around s₀ p.1
  state : Unflushed p.1 p.2 ∨ Flushed p.1 p.2

section Steps

variable {s s' : Exchange} {h : History}

theorem Wrote.flushed {h' : History} (hw : Wrote {} s'.rw s'.respErr (h'.frame s'.normalizeKeys))
    (hwritten : s'.headerWritten) (hrej : h'.rejected = false) : Flushed s' h' := by
  obtain ⟨hafter, ⟨he, hok, hsent⟩ | ⟨he, hf, taken, hpre, hsent⟩⟩ := hw
  · have hall : s'.rw.sent <+: h'.frame s'.normalizeKeys := hsent ▸ prefix_rfl
    exact ⟨hwritten, hrej, by simp [hok, he], hafter, hall, fun _ => hsent⟩
  refine ⟨hwritten, hrej, by simp [hf, he], hafter, ?_, fun hn => absurd hn he⟩
  rw [hsent, nil_append]
  exact hpre

theorem Flushed.wrote (hs : Flushed s h) : Wrote {} s.rw s.respErr (h.frame s.normalizeKeys) := by
  refine ⟨hs.stopped, ?_⟩
  by_cases herr : s.respErr = none
  · refine .inl ⟨herr, ?_, hs.whole herr⟩
    rw [← Bool.not_eq_true, hs.failed]
    exact not_not.mpr herr
  · exact .inr ⟨herr, hs.failed.mpr herr, s.rw.sent, hs.sent, rfl⟩

theorem frame_append (h : History) (normalizeKeys : Bool) (buf : Bytes) :
    { h with bodies := h.bodies ++ buf }.frame normalizeKeys = h.frame normalizeKeys ++ buf := by
  simp only [frame, fieldLines, append_assoc]

theorem Unflushed.frame_flushed (hs : Unflushed s h) (herr : s.respErr = none) :
    topLine s ++ (read s.rawbuf.mem ⟨s.respHeaderOff, s.respHeaderLen⟩ ++ crlf) =
      h.flushed.frame s.normalizeKeys := by
  have hbody : h.flushed.bodies = [] := by
    rw [← hs.bodies herr]
    unfold flushed
    split <;> rfl
  have hstatus : topLine s = h.flushed.status := by
    unfold topLine flushed
    rw [hs.status herr]
    split <;> rfl
  have hfields : h.flushed.fieldLines s.normalizeKeys = h.fieldLines s.normalizeKeys := by
    unfold flushed
    split <;> rfl
  rw [hs.lines herr, frame, hbody, hstatus, hfields]
  simp only [append_assoc, append_nil]

theorem fieldLines_snoc (h : History) (normalizeKeys : Bool) (key value : Bytes) :
    { h with fields := h.fields ++ [(key, value)] }.fieldLines normalizeKeys =
      h.fieldLines normalizeKeys ++ stagedLine normalizeKeys key value := by
  simp [fieldLines, flatMap_append]

/-- Before the flush a field joins the staged ones, or is the reason that nothing is written. -/
theorem Unflushed.stage (hs : Unflushed s h) {key value : Bytes}
    (hwell : StagesWell s key.length value.length) :
    ∃ s' b, s.stage key value value.length = .ok (s', b) ∧ Around s s' ∧
      Unflushed s' (h.staged (s.fits key.length value.length) key value) := by
  cases hfits : s.fits key.length value.length with
  | false =>
    refine ⟨_, _, stage_full hfits, Around.of_rawbuf rfl rfl rfl, ?_⟩
    exact {
      written := hs.written
      silent := hs.silent
      rejected := by simp [staged]
      status := nofun
      bodies := nofun
      length := nofun
      lines := nofun }
  | true =>
  obtain ⟨b, hstage, hmem, hlen⟩ := stage_fits hfits
  have hroom := of_decide_eq_true hfits
  have hcap := s.rawbuf.fits
  have hline := length_stagedLine s.normalizeKeys key value
  refine ⟨_, _, hstage, Around.of_blit hmem hlen (by omega) rfl rfl, ?_⟩
  have hsmall (herr : s.respErr = none) :
      (s.respHeaderLen + (key.length + value.length + 3)) % 65536 =
        s.respHeaderLen + (stagedLine s.normalizeKeys key value).length := by
    have hw := hwell herr
    rw [if_neg (by simp [hs.written])] at hw
    rw [hline, Nat.mod_eq_of_lt (hw hfits)]
  exact {
    written := hs.written
    silent := hs.silent
    rejected := hs.rejected
    status := hs.status
    bodies := hs.bodies
    length := fun herr => by
      simp only [staged, if_true, fieldLines_snoc, length_append]
      rw [hsmall herr, hs.length herr]
    lines := fun herr => by
      simp only [staged, if_true, fieldLines_snoc]
      rw [hsmall herr, hmem, read_blit_extend _ _ _ _ (by omega), hs.lines herr] }

/-- What a call behind the flush keeps when it writes nothing. -/
structure Quiet (s s' : Exchange) : Prop where
  around : Around s s'
  written : s'.headerWritten = s.headerWritten
  rw : s'.rw = s.rw
  err : s'.respErr = none ↔ s.respErr = none

theorem Quiet.refl (s : Exchange) : Quiet s s := ⟨.refl s, rfl, rfl, Iff.rfl⟩

theorem Quiet.flushed (hq : Quiet s s') (hs : Flushed s h) : Flushed s' h where
  written := hq.written.trans hs.written
  rejected := hs.rejected
  failed := by
    rw [hq.rw, hs.failed]
    exact not_congr hq.err.symm
  stopped := by
    rw [hq.rw]
    exact hs.stopped
  sent := by
    rw [hq.rw, hq.around.keys]
    exact hs.sent
  whole := fun hn => by
    rw [hq.rw, hq.around.keys]
    exact hs.whole (hq.err.mp hn)

theorem stage_quiet (hwritten : s.headerWritten) {key value : Bytes}
    (hwell : StagesWell s key.length value.length) :
    ∃ s' b, s.stage key value value.length = .ok (s', b) ∧ Quiet s s' := by
  cases hfits : s.fits key.length value.length with
  | false =>
    -- An error is there already: with none the field would have had room.
    have herr : s.respErr ≠ none := by
      intro hn
      have hw := hwell hn
      rw [if_pos hwritten, hfits] at hw
      cases hw
    refine ⟨_, _, stage_full hfits, Around.of_rawbuf rfl rfl rfl, rfl, rfl, ?_⟩
    simp [herr]
  | true =>
  obtain ⟨b, hstage, hmem, hlen⟩ := stage_fits hfits
  have hroom := of_decide_eq_true hfits
  have hline := length_stagedLine s.normalizeKeys key value
  exact ⟨_, _, hstage, Around.of_blit hmem hlen (by omega) rfl rfl, rfl, rfl, Iff.rfl⟩

theorem stageStatus_quiet (s : Exchange) (code : Int64) :
    ∃ s', s.stageStatus code.toInt = .ok s' ∧ Quiet s s' := by
  refine ⟨_, stageStatus_spec s code, ?_⟩
  split
  · exact .refl s
  · exact ⟨Around.of_rawbuf rfl rfl rfl, rfl, rfl, Iff.rfl⟩

theorem act_quiet (hwritten : s.headerWritten) {a : Action} (ha : Action.isStaging a)
    (hwell : Careful s a) : ∃ s', act s a = .ok s' ∧ Quiet s s' := by
  cases a with
  | stageHeader key value =>
    obtain ⟨s', b, hstage, hq⟩ := stage_quiet hwritten hwell
    exact ⟨s', by simp only [act, stageHeader, hstage]; rfl, hq⟩
  | stageHeaderInt key value =>
    obtain ⟨s', b, hstage, hq⟩ := stage_quiet hwritten hwell
    exact ⟨s', by simp only [act, stageHeaderInt_eq, hstage]; rfl, hq⟩
  | stageStatus code => exact stageStatus_quiet s code
  | flushHeader | writeBody => cases ha

theorem Unflushed.of_err (hs : Unflushed s h) (herr : s.respErr ≠ none) {h' : History}
    (hrej : h'.rejected = h.rejected) : Unflushed s h' where
  written := hs.written
  silent := hs.silent
  rejected := by
    rw [hrej]
    exact hs.rejected
  status := fun hn => absurd hn herr
  bodies := fun hn => absurd hn herr
  length := fun hn => absurd hn herr
  lines := fun hn => absurd hn herr

theorem rejected_flushed (h : History) : h.flushed.rejected = h.rejected := by
  unfold flushed
  split <;> rfl

theorem bodies_flushed (h : History) : h.flushed.bodies = h.bodies := by
  unfold flushed
  split <;> rfl

section
variable (hs : Unflushed s h)
include hs

theorem Unflushed.accepted (herr : s.respErr = none) : h.rejected = false := by
  rw [← Bool.not_eq_true, hs.rejected]
  exact not_not.mpr herr

theorem Unflushed.stageStatus (code : Int64) :
    ∃ s', s.stageStatus code.toInt = .ok s' ∧ Around s s' ∧
      Unflushed s' (h.record s (.stageStatus code)) := by
  refine ⟨_, stageStatus_spec s code, ?_⟩
  simp only [record, hs.written, Bool.false_eq_true, false_or]
  split
  · exact ⟨.refl s, hs⟩
  · exact ⟨Around.of_rawbuf rfl rfl rfl, rfl, hs.silent, hs.rejected, fun _ => rfl, hs.bodies,
      hs.length, hs.lines⟩

/-- The flush puts the header on the wire, as far as the writes succeed. -/
theorem Unflushed.flush (herr : s.respErr = none) (hwell : FlushesWell s)
    (w₁ w₂ : Write) : ∃ s' n, s.flushHeader w₁ w₂ = .ok (s', n) ∧ Around s s' ∧ s'.headerWritten ∧
      Wrote {} s'.rw s'.respErr (h.flushed.frame s'.normalizeKeys) := by
  obtain ⟨s', n, hflush, hwritten, haround, -, hw⟩ :=
    flushHeader_spec herr hs.written (by rw [hs.silent]) (hwell hs.written herr) w₁ w₂
  refine ⟨s', n, hflush, haround, hwritten, ?_⟩
  rw [haround.keys, ← hs.frame_flushed herr, ← hs.silent]
  exact hw

theorem act_unflushed {a : Action} (hwell : Careful s a) : ∃ s', act s a = .ok s' ∧ Around s s' ∧
      (Unflushed s' (h.record s a) ∨ Flushed s' (h.record s a)) := by
  have hopen : ¬ s.headerWritten := by simp [hs.written]
  cases a with
  | stageHeader key value =>
    obtain ⟨s', b, hstage, haround, hs'⟩ := hs.stage hwell
    refine ⟨s', by simp only [act, stageHeader, hstage]; rfl, haround, .inl ?_⟩
    simpa only [record, if_neg hopen] using hs'
  | stageHeaderInt key value =>
    obtain ⟨s', b, hstage, haround, hs'⟩ := hs.stage hwell
    refine ⟨s', by simp only [act, stageHeaderInt_eq, hstage]; rfl, haround, .inl ?_⟩
    simpa only [record, if_neg hopen] using hs'
  | stageStatus code =>
    obtain ⟨s', hstage, haround, hs'⟩ := hs.stageStatus code
    exact ⟨s', hstage, haround, .inl hs'⟩
  | flushHeader w₁ w₂ =>
    simp only [record, if_neg hopen]
    by_cases herr : s.respErr = none
    · obtain ⟨s', n, hflush, haround, hwritten, hw⟩ := hs.flush herr hwell w₁ w₂
      refine ⟨s', by simp only [act, hflush]; rfl, haround, .inr (Wrote.flushed hw hwritten ?_)⟩
      rw [rejected_flushed, hs.accepted herr]
    · refine ⟨s, by simp only [act, flushHeader_kept (.inl herr)]; rfl, .refl s, .inl ?_⟩
      exact hs.of_err herr (rejected_flushed h)
  | writeBody buf w₁ w₂ w₃ =>
  simp only [record, if_neg hopen]
  by_cases herr : s.respErr = none
  · obtain ⟨s₁, n, hflush, haround₁, hwritten₁, hw₁⟩ := hs.flush herr hwell w₁ w₂
    obtain ⟨s', n', hbody, hwritten, haround, hw⟩ := writeBody_wrote hwritten₁ hw₁ buf w₁ w₂ w₃
    rw [← writeBody_flushed herr hs.written hflush hwritten₁] at hbody
    refine ⟨s', by simp only [act, hbody]; rfl, haround₁.trans haround, .inr ?_⟩
    refine Wrote.flushed ?_ hwritten ((rejected_flushed h).trans (hs.accepted herr))
    rw [← bodies_flushed h, frame_append, haround.keys]
    exact hw
  · refine ⟨s, by simp only [act, writeBody_kept herr]; rfl, .refl s, .inl ?_⟩
    exact hs.of_err herr (rejected_flushed h)

end

theorem act_flushed (hs : Flushed s h) {a : Action} (hwell : Careful s a) :
    ∃ s', act s a = .ok s' ∧ Around s s' ∧ Flushed s' (h.record s a) := by
  have hquiet (ha : Action.isStaging a) (hrec : h.record s a = h) :
      ∃ s', act s a = .ok s' ∧ Around s s' ∧ Flushed s' (h.record s a) := by
    obtain ⟨s', hact, hq⟩ := act_quiet hs.written ha hwell
    rw [hrec]
    exact ⟨s', hact, hq.around, hq.flushed hs⟩
  cases a with
  | stageHeader | stageHeaderInt => exact hquiet rfl (if_pos hs.written)
  | stageStatus code => exact hquiet rfl (if_pos (.inl hs.written))
  | flushHeader w₁ w₂ =>
    simp only [record, if_pos hs.written]
    exact ⟨s, by simp only [act, flushHeader_kept (.inr hs.written)]; rfl, .refl s, hs⟩
  | writeBody buf w₁ w₂ w₃ =>
  simp only [record, if_pos hs.written]
  obtain ⟨s', n, hbody, hwritten, haround, hw⟩ := writeBody_wrote hs.written hs.wrote buf w₁ w₂ w₃
  refine ⟨s', by simp only [act, hbody]; rfl, haround, Wrote.flushed ?_ hwritten hs.rejected⟩
  rw [frame_append, haround.keys]
  exact hw

theorem track_inv {s₀ : Exchange} {p : Exchange × History} {a : Action} (hp : Inv s₀ p)
    (hwell : Careful p.1 a) : ∃ p', track p a = .ok p' ∧ Inv s₀ p' := by
  obtain ⟨s, h⟩ := p
  rcases hp.state with hs | hs
  · obtain ⟨s', hact, haround, hs'⟩ := act_unflushed hs hwell
    exact ⟨(s', h.record s a), by simp only [track, hact]; rfl, hp.around.trans haround, hs'⟩
  · obtain ⟨s', hact, haround, hs'⟩ := act_flushed hs hwell
    exact ⟨(s', h.record s a), by simp only [track, hact]; rfl, hp.around.trans haround, .inr hs'⟩

end Steps

section Runs

theorem inv_start (rawbuf : Slice) (parsed : ℕ) (normalizeKeys : Bool) :
    Inv (.acquire rawbuf parsed normalizeKeys) (.acquire rawbuf parsed normalizeKeys, {}) where
  around := .refl _
  state := .inl ⟨rfl, rfl, by simp [acquire], fun _ => rfl, fun _ => rfl, fun _ => rfl,
    fun _ => read_empty _ rfl⟩

/-- A failed write and a field that did not fit are what the sticky error stands for. -/
theorem Inv.err {s₀ s : Exchange} {h : History} (hp : Inv s₀ (s, h)) :
    s.rw.failed ∨ h.rejected ↔ s.respErr ≠ none := by
  rcases hp.state with hs | hs
  · have hok : s.rw.failed = false := by
      have := hs.silent
      rw [this]
    simp only [hok, Bool.false_eq_true, false_or]
    exact hs.rejected
  have hok : h.rejected = false := hs.rejected
  simp only [hok, Bool.false_eq_true, or_false]
  exact hs.failed

theorem guarded_track {actions : List Action} : ∀ {s : Exchange} {h : History},
    Guarded act Careful s actions → Guarded track (fun p => Careful p.1) (s, h) actions := by
  induction actions with
  | nil =>
    intro s h _
    trivial
  | cons a rest ih =>
  intro s h hg
  refine ⟨hg.1, fun p' hp' => ?_⟩
  obtain ⟨s', hact, rfl⟩ := map_ok hp'
  exact ih (hg.2 s' hact)

theorem exec_track {actions : List Action} : ∀ {s s' : Exchange} {h h' : History},
    exec track (s, h) actions = .ok (s', h') → exec act s actions = .ok s' := by
  induction actions with
  | nil =>
    intro s s' h h' hrun
    cases hrun
    rfl
  | cons a rest ih =>
  intro s s' h h' hrun
  obtain ⟨p, hp, hrest⟩ := exec_cons_ok hrun
  obtain ⟨t, hact, rfl⟩ := map_ok hp
  simp only [exec, hact]
  exact ih hrest

theorem act_sticky {s s' : Exchange} {a : Action} (herr : s.respErr ≠ none)
    (hact : act s a = .ok s') : s'.respErr ≠ none ∧ s'.rw = s.rw := by
  have hstage {key value : Bytes} {b : Bool}
      (h : s.stage key value value.length = .ok (s', b)) : s'.respErr ≠ none ∧ s'.rw = s.rw := by
    cases hfits : s.fits key.length value.length with
    | false =>
      rw [stage_full hfits] at h
      cases h
      exact ⟨Option.some_ne_none _, rfl⟩
    | true =>
    obtain ⟨buf, hok, -⟩ := stage_fits hfits
    rw [hok] at h
    cases h
    exact ⟨herr, rfl⟩
  cases a with
  | stageHeader key value =>
    obtain ⟨b, hb⟩ := map_fst_ok hact
    exact hstage hb
  | stageHeaderInt key value =>
    obtain ⟨b, hb⟩ := map_fst_ok hact
    rw [stageHeaderInt_eq] at hb
    exact hstage hb
  | stageStatus code =>
    obtain ⟨t, ht, hq⟩ := stageStatus_quiet s code
    have := ht.symm.trans hact
    cases this
    exact ⟨fun hn => herr (hq.err.mp hn), hq.rw⟩
  | flushHeader w₁ w₂ =>
    simp only [act, flushHeader_kept (.inl herr)] at hact
    cases hact
    exact ⟨herr, rfl⟩
  | writeBody buf w₁ w₂ w₃ =>
  simp only [act, writeBody_kept herr] at hact
  cases hact
  exact ⟨herr, rfl⟩

theorem exec_sticky {s s' : Exchange} {actions : List Action} (herr : s.respErr ≠ none)
    (hrun : exec act s actions = .ok s') : s'.rw = s.rw := by
  have hstep : ∀ t a t', t.respErr ≠ none ∧ t.rw = s.rw → act t a = .ok t' →
      t'.respErr ≠ none ∧ t'.rw = s.rw := by
    intro t a t' ht hact
    obtain ⟨he, hrw⟩ := act_sticky ht.1 hact
    exact ⟨he, hrw.trans ht.2⟩
  exact (exec_always hstep actions s s' ⟨herr, rfl⟩ hrun).2

/-- Two exchanges that writes cannot tell apart. -/
def Alike (s t : Exchange) : Prop :=
  s = t ∨ (s.headerWritten = true ∧ t.headerWritten = true ∧ t.rw = s.rw ∧
    (t.respErr = none ↔ s.respErr = none))

theorem Alike.rw {s t : Exchange} (h : Alike s t) : t.rw = s.rw := by
  rcases h with rfl | ⟨-, -, hrw, -⟩
  · rfl
  · exact hrw

theorem Alike.written {s t : Exchange} (h : Alike s t) (hs : s.headerWritten) :
    t.headerWritten := by
  rcases h with rfl | ⟨-, ht, -⟩
  · exact hs
  · exact ht

theorem Alike.quiet {s s' t : Exchange} (h : Alike s t) (hs : s.headerWritten)
    (hq : Quiet s s') : Alike s' t := by
  refine .inr ⟨hq.written.trans hs, h.written hs, h.rw.trans hq.rw.symm, ?_⟩
  rcases h with rfl | ⟨-, -, -, herr⟩
  · exact hq.err.symm
  · exact herr.trans hq.err.symm

/-- A call that stages nothing does the same to both. -/
theorem Alike.act {s s' t : Exchange} {a : Action} (h : Alike s t)
    (ha : s.headerWritten → Action.isStaging a = false) (hact : act s a = .ok s') :
    ∃ t', ExchangeResponse.act t a = .ok t' ∧ Alike s' t' := by
  rcases h with rfl | ⟨hs, ht, hrw, herr⟩
  · exact ⟨s', hact, .inl rfl⟩
  cases a with
  | stageHeader | stageHeaderInt | stageStatus => cases ha hs
  | flushHeader w₁ w₂ =>
    simp only [ExchangeResponse.act, flushHeader_kept (.inr hs)] at hact
    cases hact
    exact ⟨t, by simp only [ExchangeResponse.act, flushHeader_kept (.inr ht)]; rfl,
      .inr ⟨hs, ht, hrw, herr⟩⟩
  | writeBody buf w₁ w₂ w₃ =>
  by_cases he : s.respErr = none
  · simp only [ExchangeResponse.act, writeBody_written he hs] at hact
    simp only [ExchangeResponse.act, writeBody_written (herr.mpr he) ht]
    by_cases hbuf : buf = []
    · rw [if_pos hbuf] at hact ⊢
      cases hact
      exact ⟨t, rfl, .inr ⟨hs, ht, hrw, herr⟩⟩
    rw [if_neg hbuf] at hact ⊢
    cases hact
    refine ⟨_, rfl, .inr ⟨hs, ht, ?_, Iff.rfl⟩⟩
    simp only [send, hrw]
  simp only [ExchangeResponse.act, writeBody_kept he] at hact
  cases hact
  exact ⟨t, by simp only [ExchangeResponse.act, writeBody_kept (not_congr herr |>.mpr he)]; rfl,
    .inr ⟨hs, ht, hrw, herr⟩⟩

theorem exec_withoutLate {actions : List Action} : ∀ {s s' t : Exchange}, Alike s t →
    Guarded act Careful s actions → exec act s actions = .ok s' →
      ∃ t', exec act t (withoutLate s actions) = .ok t' ∧ Alike s' t' := by
  induction actions with
  | nil =>
    intro s s' t h _ hrun
    cases hrun
    exact ⟨t, rfl, h⟩
  | cons a rest ih =>
  intro s s' t h hg hrun
  obtain ⟨s₁, hact, hrest⟩ := exec_cons_ok hrun
  simp only [withoutLate, hact]
  by_cases hlate : s.headerWritten ∧ Action.isStaging a
  · rw [if_pos hlate]
    obtain ⟨s₂, hact', hq⟩ := act_quiet hlate.1 hlate.2 hg.1
    cases hact.symm.trans hact'
    exact ih (h.quiet hlate.1 hq) (hg.2 s₁ hact) hrest
  rw [if_neg hlate]
  have ha (hs : s.headerWritten) : Action.isStaging a = false := by
    rw [← Bool.not_eq_true]
    exact fun hst => hlate ⟨hs, hst⟩
  obtain ⟨t₁, hact', h₁⟩ := h.act ha hact
  obtain ⟨t', hrun', h'⟩ := ih h₁ (hg.2 s₁ hact) hrest
  exact ⟨t', by simp only [exec, hact', hrun'], h'⟩

end Runs

/-- A prefix of the frame is sent, all of it if nothing failed; nothing follows a failure;
staging behind the flush makes no difference; and the memory behind the raw buffer is left
alone. -/
structure FramedBy (s₀ : Exchange) (actions : List Action) (s : Exchange) (h : History) : Prop where
  sent : s.rw.sent <+: h.frame s₀.normalizeKeys
  once : s.rw.failed = false → h.rejected = false →
    s.rw.sent = if s.headerWritten then h.frame s₀.normalizeKeys else []
  afterFailure : s.rw.afterFailure = []
  stopped : ∀ before after s₁ h₁, actions = before ++ after →
    exec track (s₀, {}) before = .ok (s₁, h₁) → s₁.rw.failed = true ∨ h₁.rejected = true →
      s.rw.sent = s₁.rw.sent
  late : ∃ t, exec act s₀ (withoutLate s₀ actions) = .ok t ∧ t.rw.sent = s.rw.sent
  inside : s.rawbuf.mem.drop s₀.rawbuf.len = s₀.rawbuf.mem.drop s₀.rawbuf.len

/-- The calls run without a fault, and are framed. -/
def Framed (s₀ : Exchange) (calls : List ExchangeCall) : Prop :=
  ∃ s h, exec track (s₀, {}) (calls.flatMap ExchangeCall.actions) = .ok (s, h) ∧
    FramedBy s₀ (calls.flatMap ExchangeCall.actions) s h

theorem Inv.wire {s₀ s : Exchange} {h : History} (hp : Inv s₀ (s, h)) :
    s.rw.sent <+: h.frame s₀.normalizeKeys ∧ (s.rw.failed = false → h.rejected = false →
        s.rw.sent = if s.headerWritten then h.frame s₀.normalizeKeys else []) ∧
      s.rw.afterFailure = [] := by
  rw [← hp.around.keys]
  rcases hp.state with hs | hs
  · have hrw : s.rw = {} := hs.silent
    have hopen : s.headerWritten = false := hs.written
    rw [hrw, hopen]
    exact ⟨ nil_prefix, fun _ _ => rfl, rfl⟩
  refine ⟨hs.sent, fun hok _ => ?_, hs.stopped⟩
  have hwritten : s.headerWritten := hs.written
  rw [if_pos hwritten]
  apply hs.whole
  by_contra herr
  have hfailed : s.rw.failed := hs.failed.mpr herr
  rw [hok] at hfailed
  cases hfailed

/-- Every run of careful calls on an acquired exchange is framed. -/
theorem careful_calls_framed (rawbuf : Slice) (parsed : ℕ) (normalizeKeys : Bool)
    (calls : List ExchangeCall) (hcalls : Guarded act Careful (.acquire rawbuf parsed normalizeKeys)
      (calls.flatMap ExchangeCall.actions)) :
    Framed (.acquire rawbuf parsed normalizeKeys) calls := by
  have hguard := @guarded_track _ _ {} hcalls
  have hstart := inv_start rawbuf parsed normalizeKeys
  have hstep := fun p a => @track_inv (.acquire rawbuf parsed normalizeKeys) p a
  obtain ⟨⟨s, h⟩, hrun, hinv⟩ := exec_safe hstep _ _ hstart hguard
  refine ⟨s, h, hrun, ?_⟩
  obtain ⟨hsent, honce, hafter⟩ := hinv.wire
  obtain ⟨t, ht, halike⟩ := exec_withoutLate (.inl rfl) hcalls (exec_track hrun)
  refine ⟨hsent, honce, hafter, ?_, ⟨t, ht, by rw [halike.rw]⟩, hinv.around.outside⟩
  intro before after s₁ h₁ hsplit hbefore hstop
  have hfirst : Guarded track (fun p => Careful p.1) _ before := guarded_left (hsplit ▸ hguard)
  obtain ⟨p, hbefore', hinv₁⟩ := exec_safe hstep _ _ hstart hfirst
  cases hbefore'.symm.trans hbefore
  have hrest := exec_append before after (exec_track hbefore)
  rw [← hsplit, exec_track hrun] at hrest
  rw [exec_sticky (hinv₁.err.mp hstop) hrest.symm]

/-- Two fields, a status and a body of which the connection takes one byte. -/
theorem careful_calls_framed_partial : Framed (.acquire ⟨List.replicate 40 0, 40, by decide⟩ 3 true)
      [.stageHeader [97, 45, 98] [49], .stageHeaderInt [110] (-5), .stageStatus 404,
        .writeBody [104, 105] .done .done (.fails 1), .stageHeader [99] [],
        .writeBody [106] .done .done .done] :=
  careful_calls_framed _ _ _ _ (by decide +kernel)

theorem wide_field_lost {rawbuf : Slice} (hlen : 65538 ≤ rawbuf.len) {key : Bytes}
    (hkey : key.length = 65533) (hhead : key.head? = some 97) :
    ¬ Framed (.acquire rawbuf 0 false) [.stageHeader key [], .flushHeader .done .done] := by
  rintro ⟨s, h, hrun, hframed⟩
  have hfits : (acquire rawbuf 0 false).fits key.length ([] : Bytes).length := by
    simp only [fits, acquire, hkey, length_nil]
    exact decide_eq_true hlen
  obtain ⟨buf, hstage, hmem, hbuf⟩ := stage_fits hfits
  have hwrap : ((acquire rawbuf 0 false).respHeaderLen +
      (key.length + ([] : Bytes).length + 3)) % 65536 = 0 := by
    simp [acquire, hkey]
  rw [hwrap] at hstage
  obtain ⟨s', n, hflush, -, -, herr, hw⟩ := @flushHeader_spec
    { rawbuf := buf, respHeaderOff := 0 } rfl rfl rfl
    (by rw [hbuf]; exact (by decide : 2 ≤ 65538).trans hlen) .done .done
  have hact : act (.acquire rawbuf 0 false) (.stageHeader key []) =
      .ok { rawbuf := buf, respHeaderOff := 0 } := by
    simp only [act, stageHeader, hstage]
    rfl
  have hact' : act { rawbuf := buf, respHeaderOff := 0 } (.flushHeader .done .done) = .ok s' := by
    simp only [act, hflush]
    rfl
  have hend : exec track (.acquire rawbuf 0 false, {})
      ([.stageHeader key [], .flushHeader .done .done].flatMap ExchangeCall.actions) =
      .ok (s', { status := statusLine 200, fields := [(key, [])] }) := by
    simp only [flatMap_cons, flatMap_nil, ExchangeCall.actions, cons_append, nil_append,
      exec, track, hact, Except.map, hact', record, staged, hfits]
    rfl
  cases hrun.symm.trans hend
  obtain ⟨-, ⟨-, -, hsent⟩ | ⟨hne, -⟩⟩ := hw
  · have hpre := hframed.sent
    have htop : topLine { rawbuf := buf, respHeaderOff := 0 } = statusLine 200 := rfl
    rw [hsent, htop, read_empty _ rfl] at hpre
    simp only [acquire, frame, fieldLines, stagedLine, flatMap_cons,
      flatMap_nil, nil_append, append_assoc, append_nil] at hpre
    have hfield := (prefix_append_right_inj (statusLine 200)).mp hpre
    cases key with
    | nil => cases hhead
    | cons c rest =>
      cases hhead
      simp [crlf, cr] at hfield
  · exact hne (herr rfl)

/-- A field without room behind the flush silences the body; a line break behind a full buffer
is written outside of it, or is a fault; and 65536 bytes of fields are written as none. -/
theorem staging_breaks_framing : ¬ Framed (.acquire ⟨List.replicate 20 0, 20, by decide⟩ 10 false)
        [.writeBody [65] .done .done .done, .stageHeader [75] (List.replicate 10 118),
          .writeBody [66] .done .done .done] ∧
      ¬ Framed (.acquire ⟨List.replicate 12 0, 10, by decide⟩ 10 false) [.flushHeader .done .done] ∧
      ¬ Framed (.acquire ⟨List.replicate 10 0, 10, by decide⟩ 10 false) [.flushHeader .done .done] ∧
      ¬ Framed (.acquire ⟨List.replicate 65538 0, 65538, List.length_replicate.ge⟩ 0 false)
        [.stageHeader (List.replicate 65533 97) [], .flushHeader .done .done] := by
  refine ⟨?_, ?_, ?_, wide_field_lost le_rfl length_replicate ?_⟩
  · rintro ⟨s, h, hrun, hframed⟩
    obtain ⟨t, ht, hsame⟩ := hframed.late
    have hs : s.rw.sent.length = 20 :=
      @ok_observe _ _ _ _ (fun p : Exchange × History => p.1.rw.sent.length) _ _ hrun
        (by decide +kernel)
    have ht : t.rw.sent.length = 21 :=
      @ok_observe _ _ _ _ (fun p : Exchange => p.rw.sent.length) _ _ ht (by decide +kernel)
    rw [hsame, hs] at ht
    cases ht
  · rintro ⟨s, h, hrun, hframed⟩
    have hs : s.rawbuf.mem.drop 10 = crlf :=
      @ok_observe _ _ _ _ (fun p : Exchange × History => p.1.rawbuf.mem.drop 10) _ _ hrun
        (by decide +kernel)
    have hinside := hframed.inside
    simp only [Exchange.acquire] at hinside
    rw [hs] at hinside
    revert hinside
    decide
  · rintro ⟨s, h, hrun, -⟩
    have hfault := congrArg Except.toOption hrun
    revert hfault
    rw [show (exec track _ _).toOption = none by decide +kernel]
    intro hfault
    cases hfault
  · rw [List.head?_replicate, if_neg (by decide)]

end Lneto.ResponseFraming
