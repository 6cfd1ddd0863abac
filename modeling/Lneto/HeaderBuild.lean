import Lneto.HttpHeaders
import Lneto.KeyValueCalls

/-!
Building a header. The texts of the first line and of the fields stay in regions
apart from each other, so setting one leaves the others, and every field is one
that a call has put there.
-/
namespace Lneto.HttpHeaders

open GuardedRuns KeyValues Regions List KvBuffer

section Owner
variable {a b : List Region} {r : Region} {s : KvBuffer}

theorem sound_replace (h : Sound (a ++ r :: b) s) {s' : KvBuffer} {r' : Region}
    (hkvs : s'.kvs = s.kvs) (hlen : s.buf.len ≤ s'.buf.len)
    (hmax : s.buf.len ≤ maxBufLen → s'.buf.len ≤ maxBufLen) (hin : r'.start + r'.len ≤ s'.buf.len)
    (hextra : ∀ q ∈ a ++ b, Apart q r') (hpairs : ∀ p ∈ s.kvs, Apart p.key r' ∧ Apart p.value r') :
    Sound (a ++ r' :: b) s' := by
  have hmem : ∀ q ∈ a ++ r' :: b, q = r' ∨ q ∈ a ++ r :: b := by
    intro q hq
    rcases mem_append.1 hq with hq | hq
    · exact .inr (mem_append_left _ hq)
    rcases mem_cons.1 hq with rfl | hq
    · exact .inl rfl
    · exact .inr (mem_append_right _ (mem_cons_of_mem _ hq))
  have hold := h.extra_apart
  rw [pairwise_append, pairwise_cons] at hold
  obtain ⟨ha, ⟨-, hb⟩, hab⟩ := hold
  refine ⟨fun q hq => ?_, ?_, ?_, fun q hq p hp => ?_, ?_, ?_, ?_, ?_, ?_⟩
  · rcases hmem q hq with rfl | hq
    · exact hin
    · exact (h.extra_inside q hq).trans hlen
  · rw [hkvs]
    exact fun p hp => ⟨(h.inside p hp).1.trans hlen, (h.inside p hp).2.trans hlen⟩
  · rw [pairwise_append, pairwise_cons]
    refine ⟨ha, ⟨fun q hq => (hextra q (mem_append_right _ hq)).symm, hb⟩, fun q hq q' hq' => ?_⟩
    rcases mem_cons.1 hq' with rfl | hq'
    · exact hextra q (mem_append_left _ hq)
    · exact hab q hq q' (mem_cons_of_mem _ hq')
  · rw [hkvs] at hp
    rcases hmem q hq with rfl | hq
    · exact ⟨(hpairs p hp).1.symm, (hpairs p hp).2.symm⟩
    · exact h.cross q hq p hp
  · rw [hkvs]
    exact h.own
  · rw [hkvs]
    exact h.pairs
  · rw [hkvs]
    exact fun hne => hmax (h.small hne)
  · rw [hkvs]
    exact h.named
  · rw [hkvs]
    exact h.valued

theorem reuseOrAppend_spec (h : Sound (a ++ r :: b) s) (value : Bytes) (slack : ℕ) :
    ∃ s' r', s.reuseOrAppend r value slack = .ok (s', r') ∧ Sound (a ++ r' :: b) s' ∧
      s'.kvs = s.kvs ∧ s'.live = s.live := by
  have hr := h.extra_inside r (by simp)
  have hlive : ∀ {s' : KvBuffer}, s'.kvs = s.kvs → (∀ p ∈ s.kvs, s'.token p.key = s.token p.key ∧
      s'.token p.value = s.token p.value) → s'.live = s.live := by
    intro s' hkvs htok
    rw [live_eq, live_eq, hkvs]
    exact entries_congr htok
  have hothers : ∀ q ∈ a ++ b, Apart q r := by
    have hold := h.extra_apart
    rw [pairwise_append, pairwise_cons] at hold
    intro q hq
    rcases mem_append.1 hq with hq | hq
    · exact hold.2.2 q hq r mem_cons_self
    · exact (hold.2.1.1 q hq).symm
  have hcross := h.cross r (by simp)
  unfold KvBuffer.reuseOrAppend
  split_ifs with hreuse
  · -- over the region there is
    obtain ⟨c, hc, hmem, hlen⟩ := @overwrite_spec s.buf r.start (value.take r.len)
      (by rw [length_take]; omega)
    have hshort : (value.take r.len).length ≤ r.len := by rw [length_take]; omega
    have hfits := s.buf.fits
    rw [hc]
    refine ⟨_, _, rfl, sound_replace h rfl (by simp only; omega) (fun hm => by simp only; omega)
      (by simp only; omega) (fun q hq => (hothers q hq).shrink hreuse.le) (fun p hp =>
        ⟨(hcross p hp).1.symm.shrink hreuse.le, (hcross p hp).2.symm.shrink hreuse.le⟩), rfl,
      hlive rfl fun p hp => ?_⟩
    simp only [KvBuffer.token, hmem]
    rw [read_blit_apart (by omega) ((hcross p hp).1.symm.shrink hshort),
      read_blit_apart (by omega) ((hcross p hp).2.symm.shrink hshort)]
    exact ⟨rfl, rfl⟩
  obtain ⟨s₁, hres, hkvs, hlen, htok, hcap⟩ := reserve_spec s value.length slack
  unfold KvBuffer.appendSlice
  simp only [hres]
  cases hroom : s.room value.length with
  | false =>
    refine ⟨s₁, {}, rfl, sound_replace h hkvs hlen.ge (fun hm => by omega) (Nat.zero_le _)
      (fun q _ => apart_empty q rfl) (fun p _ => ⟨apart_empty _ rfl, apart_empty _ rfl⟩), hkvs,
      hlive hkvs fun p hp => ⟨htok _ (h.inside p hp).1, htok _ (h.inside p hp).2⟩⟩
  | true =>
  have hmax : s.next + value.length ≤ maxBufLen := by
    simp only [KvBuffer.room, Bool.and_eq_true, decide_eq_true_eq] at hroom
    exact hroom.1
  have hnext : ({ s₁ with flags := { s₁.flags with mangledBuffer := true } } : KvBuffer).next =
      s.next := by
    unfold KvBuffer.next
    rw [hlen]
  obtain ⟨s₂, r', hrun, happ⟩ := @mustAppendSlice_spec
    { s₁ with flags := { s₁.flags with mangledBuffer := true } } value
    (by rw [hnext]; exact hcap hroom) (by rw [hnext]; exact hmax)
  have hkvs₂ : s₂.kvs = s.kvs := happ.kvs.trans hkvs
  have hlen₂ := happ.len
  have hle := len_le_next s
  have hkeeps : ∀ q : Region, q.start + q.len ≤ s.buf.len →
      s₂.token q = s.token q ∧ Apart q r' := by
    intro q hq
    obtain ⟨h1, h2⟩ := happ.keeps q (by simp only; omega)
    exact ⟨h1.trans (htok q hq), h2⟩
  refine ⟨s₂, r', hrun, sound_replace h hkvs₂ (by omega) (fun _ => by omega) happ.inside
    (fun q hq => (hkeeps q (h.extra_inside q ?_)).2)
    (fun p hp => ⟨(hkeeps _ (h.inside p hp).1).2, (hkeeps _ (h.inside p hp).2).2⟩), hkvs₂,
    hlive hkvs₂ fun p hp => ⟨(hkeeps _ (h.inside p hp).1).1, (hkeeps _ (h.inside p hp).2).1⟩⟩
  rcases mem_append.1 hq with hq | hq
  · exact mem_append_left _ hq
  · exact mem_append_right _ (mem_cons_of_mem _ hq)

end Owner

inductive Build where
  | setMethod (method : Bytes) (slack : ℕ)
  | setRequestTarget (requestTarget : Bytes) (slack : ℕ)
  | setProtocol (protocol : Bytes) (slack : ℕ)
  | setStatus (code statusText : Bytes) (slack slack' : ℕ)
  | add (key value : Bytes) (slack kvSlack : ℕ)
  | set (key value : Bytes) (slack kvSlack : ℕ)
deriving DecidableEq, Repr

def build (h : HeaderV1) : Build → Except Fault HeaderV1
  | .setMethod method slack => h.setMethod method slack
  | .setRequestTarget requestTarget slack => h.setRequestTarget requestTarget slack
  | .setProtocol protocol slack => h.setProtocol protocol slack
  | .setStatus code statusText slack slack' => h.setStatus code statusText slack slack'
  | .add key value slack kvSlack => h.add key value slack kvSlack
  | .set key value slack kvSlack => (h.set key value slack kvSlack).map Prod.fst

/-- A key that the parser reads back as it is. -/
def CleanKey (key : Bytes) : Prop :=
  key ≠ [] ∧ ∀ c ∈ key, c ≠ space ∧ c ≠ tab ∧ c ≠ colon ∧ c ≠ cr ∧ c ≠ lf

def CleanValue (value : Bytes) : Prop :=
  value.head? ≠ some space ∧ ∀ c ∈ value, c ≠ cr ∧ c ≠ lf

def Build.Clean : Build → Prop
  | .add key value _ _ => CleanKey key ∧ CleanValue value
  | .set key value _ _ => CleanKey key ∧ CleanValue value
  | _ => True

def HeaderV1.views (h : HeaderV1) : List Region :=
  [h.method, h.requestTarget, h.proto, h.statusCode, h.statusText]

/-- All texts are apart, invalidated pairs are blank, and the others are clean. -/
structure Built (h : HeaderV1) : Prop where
  sound : Sound h.views h.kv
  keyed : ∀ p ∈ h.kv.kvs, p = {} ∨ 0 < p.key.len
  clean : ∀ e ∈ h.kv.live, CleanKey e.1 ∧ CleanValue e.2

theorem built_view {h : HeaderV1} (hb : Built h) {a b : List Region} {r : Region} {kv : KvBuffer}
    (hkv : kv.kvs = h.kv.kvs ∧ kv.live = h.kv.live)
    (hsound : Sound (a ++ r :: b) kv) (value : Bytes) (slack : ℕ) :
    ∃ kv' r', kv.reuseOrAppend r value slack = .ok (kv', r') ∧
      (kv'.kvs = h.kv.kvs ∧ kv'.live = h.kv.live) ∧ Sound (a ++ r' :: b) kv' ∧
      ∀ h' : HeaderV1, h'.kv = kv' → h'.views = a ++ r' :: b → Built h' := by
  obtain ⟨kv', r', hrun, hs, hkvs, hlive⟩ := reuseOrAppend_spec hsound value slack
  refine ⟨kv', r', hrun, ⟨hkvs.trans hkv.1, hlive.trans hkv.2⟩, hs, fun h' hk hv => ⟨?_, ?_, ?_⟩⟩
  · rw [hk, hv]
    exact hs
  · rw [hk, hkvs, hkv.1]
    exact hb.keyed
  · rw [hk, hlive, hkv.2]
    exact hb.clean

theorem mem_fresh {key value : Bytes} {e : Bytes × Bytes} (he : e ∈ fresh key value) :
    e = (key, value) := by
  unfold fresh at he
  split_ifs at he
  · cases he
  · exact mem_singleton.1 he

theorem mem_keyed_or_others {key : Bytes} {l : List (Bytes × Bytes)} {e : Bytes × Bytes}
    (he : e ∈ l) : e ∈ keyed key l ∨ e ∈ others key l := by
  by_cases hk : e.1 = key
  · exact .inl (mem_filter.2 ⟨he, by simpa using hk⟩)
  · exact .inr (mem_filter.2 ⟨he, by simpa using hk⟩)

theorem build_spec {h : HeaderV1} (hb : Built h) (op : Build) (hclean : op.Clean) :
    ∃ h', build h op = .ok h' ∧ Built h' := by
  cases op with
  | setMethod method slack =>
    obtain ⟨kv, r, hrun, -, -, hbuilt⟩ := @built_view h hb [] _ _ _ ⟨rfl, rfl⟩ hb.sound method slack
    simp only [build, HeaderV1.setMethod, hrun, ok_then]
    exact ⟨_, rfl, hbuilt _ rfl rfl⟩
  | setRequestTarget requestTarget slack =>
    obtain ⟨kv, r, hrun, -, -, hbuilt⟩ := @built_view h hb [h.method] _ _ _ ⟨rfl, rfl⟩ hb.sound
      requestTarget slack
    simp only [build, HeaderV1.setRequestTarget, hrun, ok_then]
    exact ⟨_, rfl, hbuilt _ rfl rfl⟩
  | setProtocol protocol slack =>
    obtain ⟨kv, r, hrun, -, -, hbuilt⟩ := @built_view h hb [h.method, h.requestTarget] _ _ _
      ⟨rfl, rfl⟩ hb.sound protocol slack
    simp only [build, HeaderV1.setProtocol, hrun, ok_then]
    exact ⟨_, rfl, hbuilt _ rfl rfl⟩
  | setStatus code statusText slack slack' =>
    obtain ⟨kv, r, hrun, hkv, hsound, -⟩ :=
      @built_view h hb [h.method, h.requestTarget, h.proto] _ _
      { h.kv with flags := { h.kv.flags with statusSet := true } } ⟨rfl, rfl⟩
      (hb.sound.of_eq rfl rfl) code slack
    obtain ⟨kv', r', hrun', -, -, hbuilt⟩ := @built_view h hb
      [h.method, h.requestTarget, h.proto, r] [] h.statusText kv hkv hsound statusText slack'
    simp only [build, HeaderV1.setStatus, hrun, hrun', ok_then]
    exact ⟨_, rfl, hbuilt _ rfl rfl⟩
  | add key value slack kvSlack =>
    obtain ⟨kv, hrun, happ, hkept⟩ := appendPair_spec hb.sound key value slack kvSlack
    simp only [build, HeaderV1.add, hrun, ok_then]
    refine ⟨_, rfl, ?_⟩
    cases hroom : h.kv.canAppend (key.length + value.length) with
    | true =>
      have happ := happ hroom
      refine ⟨happ.sound, fun p hp => ?_, fun e he => ?_⟩
      · rcases happ.mem p hp with hp | hlen
        · exact hb.keyed p hp
        · exact .inr (hlen ▸ length_pos_iff.2 hclean.1.1)
      rw [show _ = _ from live_appended hb.sound happ] at he
      rcases mem_append.1 he with he | he
      · exact hb.clean e he
      · rw [mem_fresh he]
        exact hclean
    | false =>
    have hkept := hkept hroom
    refine ⟨hkept.sound, fun p hp => hb.keyed p (hkept.kvs ▸ hp), fun e he => ?_⟩
    rw [show _ = _ from live_kept hb.sound hkept] at he
    exact hb.clean e he
  | set key value slack kvSlack =>
  obtain ⟨kv, ok, hrun, hdone⟩ := set_spec hb.sound key value slack kvSlack
  simp only [build, HeaderV1.set, hrun, ok_then]
  refine ⟨_, rfl, hdone.sound, fun p hp => ?_, fun e he => ?_⟩
  · rcases hdone.kvs p hp with hnil | hp | hlen
    · exact .inl hnil
    · exact hb.keyed p hp
    · exact .inr (hlen ▸ length_pos_iff.2 hclean.1.1)
  rcases @mem_keyed_or_others key _ e he with he | he
  · rw [show _ = _ from hdone.new] at he
    split_ifs at he
    · rw [mem_fresh he]
      exact hclean
    · cases he
  · rw [show _ = _ from hdone.rest] at he
    exact hb.clean e (mem_filter.1 he).1

theorem builds (ops : List Build) : ∀ h : HeaderV1, Built h → (∀ op ∈ ops, op.Clean) →
    ∃ h', exec build h ops = .ok h' ∧ Built h' := by
  induction ops with
  | nil => exact fun h hb _ => ⟨h, rfl, hb⟩
  | cons op ops ih =>
  intro h hb hclean
  obtain ⟨h₁, hrun, hb₁⟩ := build_spec hb op (hclean op mem_cons_self)
  obtain ⟨h', hrun', hb'⟩ := ih h₁ hb₁ fun o ho => hclean o (mem_cons_of_mem _ ho)
  refine ⟨h', ?_, hb'⟩
  rw [exec, hrun]
  exact hrun'

theorem built_reset {h h₀ : HeaderV1} {buf : Option Slice} {numHeaderCapacity : ℕ}
    (hreset : h.reset buf numHeaderCapacity = some h₀) : Built h₀ := by
  unfold HeaderV1.reset at hreset
  simp only at hreset
  split_ifs at hreset
  cases hreset
  refine ⟨⟨?_, ?_, ?_, ?_, ?_, ?_, ?_, ?_, ?_⟩, ?_, ?_⟩
  all_goals simp [HeaderV1.views, reset, live, Apart]

theorem fields_eq_live {h : HeaderV1}
    (hkvs : ∀ p ∈ h.kv.kvs, p.isValidHeader = p.isValid) : h.fields = h.kv.live := by
  unfold HeaderV1.fields live
  rw [filter_congr hkvs]

theorem built_fields {h : HeaderV1} (hb : Built h) : h.fields = h.kv.live := by
  refine fields_eq_live fun p hp => ?_
  rcases hb.keyed p hp with rfl | hpos
  · rfl
  have hvalid : p.isValid := by rw [Pair.isValid, decide_eq_true hpos, Bool.true_or]
  rw [hvalid]
  by_contra hno
  have := hb.sound.named p hp (Bool.not_eq_true _ ▸ hno)
  omega

end Lneto.HttpHeaders
