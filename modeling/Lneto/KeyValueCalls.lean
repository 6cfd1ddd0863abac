import Lneto.KeyValues

/-!
What the callers of a key-value store are told. Every call changes the live
pairs by the pairs of one key it drops and the one it adds. It tells the truth
unless it ran out of room after dropping pairs, or looked up a key it did not
add.
-/
namespace Lneto.KeyValues

open GuardedRuns Regions List KvBuffer

section Live
variable {extra : List Region} {s s' : KvBuffer} {key value : Bytes}

def KvBuffer.entry (s : KvBuffer) (p : Pair) : Bytes × Bytes := (s.token p.key, s.valueOf p)

def KvBuffer.entries (s : KvBuffer) (l : List Pair) : List (Bytes × Bytes) :=
  (l.filter Pair.isValid).map s.entry

theorem live_eq (s : KvBuffer) : s.live = s.entries s.kvs := rfl

theorem entries_append (s : KvBuffer) (l l' : List Pair) :
    s.entries (l ++ l') = s.entries l ++ s.entries l' := by
  rw [entries, filter_append, map_append]
  rfl

theorem entries_cons (s : KvBuffer) (p : Pair) (l : List Pair) :
    s.entries (p :: l) = s.entries [p] ++ s.entries l := entries_append s [p] l

theorem entries_congr {l : List Pair}
    (h : ∀ p ∈ l, s'.token p.key = s.token p.key ∧ s'.token p.value = s.token p.value) :
    s'.entries l = s.entries l := by
  refine map_congr_left fun p hp => ?_
  obtain ⟨hk, hv⟩ := h p (mem_filter.1 hp).1
  rw [entry, entry, valueOf, valueOf, hk, hv]

def others (key : Bytes) (l : List (Bytes × Bytes)) : List (Bytes × Bytes) :=
  l.filter fun e => e.1 ≠ key

def keyed (key : Bytes) (l : List (Bytes × Bytes)) : List (Bytes × Bytes) :=
  l.filter fun e => e.1 = key

/-- What a new pair adds: a pair without any bytes is not live. -/
def fresh (key value : Bytes) : List (Bytes × Bytes) :=
  if key = [] ∧ value = [] then [] else [(key, value)]

theorem fresh_eq (h : key ≠ [] ∨ value ≠ []) : fresh key value = [(key, value)] :=
  if_neg fun hnil => h.elim (· hnil.1) (· hnil.2)

theorem others_append (key : Bytes) (l l' : List (Bytes × Bytes)) :
    others key (l ++ l') = others key l ++ others key l' := filter_append _ _

theorem keyed_append (key : Bytes) (l l' : List (Bytes × Bytes)) :
    keyed key (l ++ l') = keyed key l ++ keyed key l' := filter_append _ _

theorem others_fresh (key value : Bytes) : others key (fresh key value) = [] := by
  unfold fresh others
  split_ifs <;> simp

theorem keyed_fresh (key value : Bytes) : keyed key (fresh key value) = fresh key value := by
  unfold fresh keyed
  split_ifs <;> simp

theorem others_others (key : Bytes) (l : List (Bytes × Bytes)) :
    others key (others key l) = others key l := by
  unfold others
  simp

theorem keyed_others (key : Bytes) (l : List (Bytes × Bytes)) : keyed key (others key l) = [] := by
  unfold others keyed
  simp

theorem others_eq_self {l : List (Bytes × Bytes)} : others key l = l ↔ key ∉ l.map Prod.fst := by
  unfold others
  rw [filter_eq_self]
  simp only [mem_map, not_exists, not_and, decide_eq_true_eq]

theorem keyed_eq_nil {l : List (Bytes × Bytes)} : keyed key l = [] ↔ key ∉ l.map Prod.fst := by
  unfold keyed
  rw [filter_eq_nil_iff]
  simp only [mem_map, not_exists, not_and, decide_eq_true_eq]

theorem isKey_iff {p : Pair} : s.isKey key p ↔ p.isValid ∧ s.token p.key = key := by
  rw [isKey, Bool.and_eq_true, beq_iff_eq]

theorem entries_wipe (s : KvBuffer) (key : Bytes) (l : List Pair) :
    s.entries (l.map (s.wipe key)) = others key (s.entries l) := by
  induction l with
  | nil => rfl
  | cons p l ih =>
  rw [map_cons, entries_cons, entries_cons s p l, others_append, ih]
  congr 1
  unfold wipe entries others
  cases hv : p.isValid with
  | false => simp [isKey, hv]
  | true =>
  by_cases hk : s.token p.key = key
  · have hgone : ({} : Pair).isValid = false := rfl
    simp [isKey, hv, hk, hgone, entry]
  · simp [isKey, hv, hk, entry]

theorem entries_singleton {p : Pair} (hk : s.token p.key = key) (hv : s.valueOf p = value)
    (hklen : p.key.len = key.length) (hvlen : p.value.len = value.length) :
    s.entries [p] = fresh key value := by
  have hvalid : p.isValid = !decide (key = [] ∧ value = []) := by
    rw [Pair.isValid, hklen, hvlen]
    cases key <;> cases value <;> simp
  unfold entries fresh
  by_cases hnil : key = [] ∧ value = []
  · simp [hvalid, hnil]
  · simp [hvalid, hnil, entry, hk, hv]

theorem live_kept (h : Sound extra s) (hkept : Kept extra s s') : s'.live = s.live := by
  rw [live_eq, live_eq, hkept.kvs]
  exact entries_congr fun p hp => ⟨hkept.keeps _ (h.inside p hp).1, hkept.keeps _ (h.inside p hp).2⟩

theorem live_appended (h : Sound extra s) (happ : PairAppended extra s s' key value) :
    s'.live = s.live ++ fresh key value := by
  obtain ⟨p, hkvs, hk, hv, hklen, hvlen⟩ := happ.pair
  rw [live_eq, live_eq, hkvs, entries_append, entries_singleton hk hv hklen hvlen]
  congr 1
  exact entries_congr fun p hp => ⟨happ.keeps _ (h.inside p hp).1, happ.keeps _ (h.inside p hp).2⟩

theorem PairAppended.mem (happ : PairAppended extra s s' key value) :
    ∀ p ∈ s'.kvs, p ∈ s.kvs ∨ p.key.len = key.length := by
  obtain ⟨q, hkvs, -, -, hklen, -⟩ := happ.pair
  intro p hp
  rw [hkvs] at hp
  rcases mem_append.1 hp with hp | hp
  · exact .inl hp
  · rw [mem_singleton.1 hp]
    exact .inr hklen

theorem live_replaced (h : Sound extra s) {before after : List Pair} {p : Pair}
    (hkvs : s.kvs = before ++ p :: after) (hrep : Replaced extra s s' before p after key value) :
    s'.live = s.entries before ++ (fresh key value ++ s.entries after) := by
  obtain ⟨p', hkvs', hk, hv, hklen, hvlen⟩ := hrep.pair
  have hpairs := h.pairs
  rw [hkvs, pairwise_append, pairwise_cons] at hpairs
  obtain ⟨-, ⟨hafter, -⟩, hbefore⟩ := hpairs
  rw [live_eq, hkvs', entries_append, entries_cons, entries_singleton hk hv hklen hvlen]
  have hb : s'.entries before = s.entries before := by
    refine entries_congr fun q hq => ?_
    obtain ⟨h1, h2, h3, h4⟩ := hbefore q hq p mem_cons_self
    exact ⟨hrep.keeps _ h1 h2, hrep.keeps _ h3 h4⟩
  have ha : s'.entries after = s.entries after := by
    refine entries_congr fun q hq => ?_
    obtain ⟨h1, h2, h3, h4⟩ := (hafter q hq).symm
    exact ⟨hrep.keeps _ h1 h2, hrep.keeps _ h3 h4⟩
  rw [hb, ha]

theorem getIdx_isSome (s : KvBuffer) (key : Bytes) :
    (s.getIdx key).isSome = decide (key ∈ s.live.map Prod.fst) := by
  rw [getIdx, findIdx?_isSome, Bool.eq_iff_iff, any_eq_true, decide_eq_true_eq]
  simp only [isKey_iff, live, mem_map, mem_filter]
  constructor
  · rintro ⟨p, hp, hvalid, hk⟩
    exact ⟨_, ⟨p, ⟨hp, hvalid⟩, rfl⟩, hk⟩
  · rintro ⟨_, ⟨p, ⟨hp, hvalid⟩, rfl⟩, hk⟩
    exact ⟨p, hp, hvalid, hk⟩

theorem get_eq (s : KvBuffer) (key : Bytes) :
    s.get key = ((keyed key s.live).head?.map Prod.snd).getD [] := by
  have hfind : ∀ l : List Pair, (l.find? (s.isKey key)).map s.valueOf =
      (keyed key (s.entries l)).head?.map Prod.snd := by
    intro l
    induction l with
    | nil => rfl
    | cons p l ih =>
    rw [entries_cons, keyed_append]
    cases hp : s.isKey key p with
    | false =>
      rw [find?_cons_of_neg (by rw [hp]; exact Bool.false_ne_true), ih]
      have hnone : keyed key (s.entries [p]) = [] := by
        unfold KvBuffer.entries keyed
        cases hv : p.isValid <;> simp_all [KvBuffer.isKey, KvBuffer.entry]
      rw [hnone, nil_append]
    | true =>
    rw [find?_cons_of_pos hp]
    obtain ⟨hv, hk⟩ := isKey_iff.1 hp
    have hone : keyed key (s.entries [p]) = [s.entry p] := by
      unfold KvBuffer.entries keyed
      simp [hv, hk, KvBuffer.entry]
    rw [hone]
    rfl
  rw [KvBuffer.get, hfind, live_eq]

end Live

section Set
variable {extra : List Region} {s : KvBuffer} {key : Bytes} {valueLen : ℕ}

def KvBuffer.reusable (s : KvBuffer) (key : Bytes) (valueLen : ℕ) : Bool :=
  s.kvs.any fun p => s.isKey key p && fitsSlot p key.length valueLen

theorem forall₂_wipe (s : KvBuffer) (key : Bytes) (l : List Pair) :
    Forall₂ Within (l.map (s.wipe key)) l := by
  induction l with
  | nil => exact .nil
  | cons p l ih =>
  refine .cons ?_ ih
  unfold wipe
  split_ifs
  · exact .empty p
  · exact .refl p

theorem wiped_mem {l : List Pair} {p : Pair} (hp : p ∈ l.map (s.wipe key)) : p = {} ∨ p ∈ l := by
  obtain ⟨q, hq, rfl⟩ := mem_map.1 hp
  unfold wipe
  split_ifs
  · exact .inl rfl
  · exact .inr hq

structure Dropped (extra : List Region) (s s₁ : KvBuffer) (key : Bytes) : Prop where
  sound : Sound extra s₁
  live : s₁.live = others key s.live
  kvs : ∀ p ∈ s₁.kvs, p = {} ∨ p ∈ s.kvs
  canAppend : ∀ need, s₁.canAppend need = s.canAppend need

theorem take_cases (h : Sound extra s) : let t := s.takeReusableSlot key key.length valueLen
    (t.reuse = none ∧ s.reusable key valueLen = false ∧
      Dropped extra s { s with kvs := t.kvs } key) ∨
    ∃ before p after, t.reuse = some before.length ∧ s.reusable key valueLen ∧
      fitsSlot p key.length valueLen ∧ key ∈ s.live.map Prod.fst ∧
      Sound extra { s with kvs := before ++ p :: after } ∧ t.kvs = before ++ p :: after ∧
      (∀ q ∈ before ++ after, q = {} ∨ q ∈ s.kvs) ∧
      ∃ l₁ l₂, s.entries before = others key l₁ ∧ s.entries after = others key l₂ ∧
        others key s.live = others key l₁ ++ others key l₂ := by
  intro t
  rcases takeReusableSlot_spec s key key.length valueLen with
    ⟨hre, hkvs, hnone⟩ | ⟨before, p, after, hseen, hre, hkey, hfits, hkvs⟩
  · rw [append_nil] at hkvs
    refine .inl ⟨hre, ?_, ?_, ?_, ?_, fun need => ?_⟩
    · rw [reusable, any_eq_false]
      intro p hp hboth
      rw [Bool.and_eq_true] at hboth
      rw [hnone p hp hboth.1] at hboth
      exact Bool.false_ne_true hboth.2
    · exact h.within (by rw [hkvs]; exact forall₂_wipe s key s.kvs)
    · rw [live_eq s, ← entries_wipe, ← hkvs]
      rfl
    · rw [hkvs]
      exact fun p hp => wiped_mem hp
    unfold canAppend canAddOneKV
    rw [hkvs, length_map]
    rfl
  rw [append_nil] at hkvs
  have hmem : p ∈ s.kvs := by
    rw [hseen]
    exact mem_append_right _ mem_cons_self
  obtain ⟨hvalid, hk⟩ := isKey_iff.1 hkey
  refine .inr ⟨_, p, _, by rw [hre, length_map], ?_, hfits, ?_, ?_, hkvs, ?_,
    s.entries before, s.entries after, entries_wipe _ _ _, entries_wipe _ _ _, ?_⟩
  · rw [reusable, any_eq_true]
    exact ⟨p, hmem, by rw [hkey, hfits]; rfl⟩
  · exact mem_map.2 ⟨s.entry p, mem_map.2 ⟨p, mem_filter.2 ⟨hmem, hvalid⟩, rfl⟩, hk⟩
  · refine h.within ?_
    rw [hseen]
    exact rel_append (forall₂_wipe s key before) (.cons (.refl p) (forall₂_wipe s key after))
  · intro q hq
    rw [hseen]
    rcases mem_append.1 hq with hq | hq
    · exact (wiped_mem hq).imp_right fun hq => mem_append_left _ hq
    · exact (wiped_mem hq).imp_right fun hq =>
        mem_append_right _ (mem_cons_of_mem _ hq)
  have hone : others key (s.entries [p]) = [] := by
    unfold entries others
    simp [hvalid, hk, entry]
  rw [live_eq, hseen, entries_append, entries_cons, others_append, others_append, hone, nil_append]

theorem add_spec (h : Sound extra s) (key value : Bytes) (slack kvSlack : ℕ) :
    ∃ s', s.add key value slack kvSlack = .ok (s', decide (key ∈ s'.live.map Prod.fst)) ∧
      Sound extra s' ∧ (∀ p ∈ s'.kvs, p ∈ s.kvs ∨ p.key.len = key.length) ∧ s'.live = s.live ++
        if s.canAppend (key.length + value.length) then fresh key value else [] := by
  obtain ⟨s', hrun, happ, hkept⟩ := appendPair_spec h key value slack kvSlack
  have hadd : s.add key value slack kvSlack = .ok (s', decide (key ∈ s'.live.map Prod.fst)) := by
    unfold add
    simp only [hrun, ok_then, getIdx_isSome]
    rfl
  cases hroom : s.canAppend (key.length + value.length) with
  | true => exact ⟨s', hadd, (happ hroom).sound, (happ hroom).mem, live_appended h (happ hroom)⟩
  | false =>
    refine ⟨s', hadd, (hkept hroom).sound, fun p hp => .inl ((hkept hroom).kvs ▸ hp), ?_⟩
    rw [live_kept h (hkept hroom), if_neg Bool.false_ne_true, append_nil]

/-- The pairs of the key are gone, and the new pair is there if one was written over or there
was room. -/
structure SetDone (extra : List Region) (s s' : KvBuffer) (key value : Bytes)
    (reuse room ok : Bool) : Prop where
  sound : Sound extra s'
  rest : others key s'.live = others key s.live
  new : keyed key s'.live = if reuse || room then fresh key value else []
  told : ok = (reuse || room && decide (key ≠ [] ∨ value ≠ []))
  had : reuse = true → key ∈ s.live.map Prod.fst
  kvs : ∀ p ∈ s'.kvs, p = {} ∨ p ∈ s.kvs ∨ p.key.len = key.length

theorem append_done {s₁ s₂ : KvBuffer} {value : Bytes} {room : Bool}
    (h : Dropped extra s s₁ key) (hsound : Sound extra s₂)
    (hkvs : ∀ p ∈ s₂.kvs, p ∈ s₁.kvs ∨ p.key.len = key.length)
    (hlive : s₂.live = s₁.live ++ if room then fresh key value else []) :
    SetDone extra s s₂ key value false room (room && decide (key ≠ [] ∨ value ≠ [])) := by
  refine ⟨hsound, ?_, ?_, rfl, fun hno => absurd hno Bool.false_ne_true, fun p hp => ?_⟩
  · rw [hlive, h.live, others_append, others_others]
    cases room with
    | false => exact append_nil _
    | true => rw [if_pos rfl, others_fresh, append_nil]
  · rw [hlive, h.live, keyed_append, keyed_others, nil_append, Bool.false_or]
    cases room with
    | false => rfl
    | true => rw [if_pos rfl, keyed_fresh]
  rcases hkvs p hp with hp | hp
  · exact (h.kvs p hp).imp_right .inl
  · exact .inr (.inr hp)

theorem overwrite_done {before after : List Pair} {p : Pair} {value : Bytes}
    (hfits : fitsSlot p key.length value.length) (hhad : key ∈ s.live.map Prod.fst)
    (hsound : Sound extra { s with kvs := before ++ p :: after })
    (hkvs : ∀ q ∈ before ++ after, q = {} ∨ q ∈ s.kvs)
    {l₁ l₂ : List (Bytes × Bytes)} (hbefore : s.entries before = others key l₁)
    (hafter : s.entries after = others key l₂)
    (hrest : others key s.live = others key l₁ ++ others key l₂) (room : Bool) :
    ∃ s', ({ s with kvs := before ++ p :: after } : KvBuffer).overwriteAt before.length key value =
      .ok s' ∧ SetDone extra s s' key value true room true := by
  obtain ⟨s', hrun, hrep⟩ := overwriteAt_spec hsound rfl hfits
  have hlive : s'.live = others key l₁ ++ (fresh key value ++ others key l₂) := by
    rw [live_replaced hsound rfl hrep, ← hbefore, ← hafter]
    rfl
  refine ⟨s', hrun, hrep.sound, ?_, ?_, rfl, fun _ => hhad, fun q hq => ?_⟩
  · rw [hlive, others_append, others_append, others_fresh, nil_append, others_others,
      others_others, hrest]
  · rw [hlive, keyed_append, keyed_append, keyed_fresh, keyed_others, keyed_others,
      nil_append, append_nil, Bool.true_or, if_pos rfl]
  obtain ⟨p', hp', -, -, hklen, -⟩ := hrep.pair
  rw [hp'] at hq
  rcases mem_append.1 hq with hq | hq
  · exact (hkvs q (mem_append_left _ hq)).imp_right .inl
  rcases mem_cons.1 hq with rfl | hq
  · exact .inr (.inr hklen)
  · exact (hkvs q (mem_append_right _ hq)).imp_right .inl

theorem set_spec (h : Sound extra s) (key value : Bytes) (slack kvSlack : ℕ) :
    ∃ s' ok, s.set key value slack kvSlack = .ok (s', ok) ∧
      SetDone extra s s' key value (s.reusable key value.length)
        (s.canAppend (key.length + value.length)) ok := by
  unfold KvBuffer.set
  rcases @take_cases extra s key value.length h with
    ⟨hre, hreuse, hdrop⟩ | ⟨before, p, after, hre, hreuse, hfits, hhad, hsound, hkvs,
      hmem, l₁, l₂, hb, ha, hr⟩
  · obtain ⟨s', hrun, hs', hkvs, hlive⟩ := add_spec hdrop.sound key value slack kvSlack
    rw [hdrop.canAppend] at hlive
    have hdone := append_done hdrop hs' hkvs hlive
    refine ⟨s', _, ?_, by rw [hreuse]; exact hdone⟩
    simp only [hre, hrun]
    congr 2
    rw [Bool.eq_iff_iff, decide_eq_true_eq]
    have hkeyed := not_congr (@keyed_eq_nil key s'.live)
    rw [not_not, hdone.new] at hkeyed
    rw [← hkeyed]
    cases s.canAppend (key.length + value.length) with
    | false => simp
    | true =>
    by_cases hnil : key = [] ∧ value = []
    · simp [fresh, hnil]
    · simp [fresh, hnil, Classical.not_and_iff_not_or_not.1 hnil]
  obtain ⟨s', hrun, hdone⟩ := overwrite_done hfits hhad hsound hmem hb ha hr
    (s.canAppend (key.length + value.length))
  refine ⟨s', true, ?_, by rw [hreuse]; exact hdone⟩
  simp only [hre, hkvs, hrun, ok_then]
  rfl

theorem setInt_spec (h : Sound extra s) (key : Bytes) {value base : ℤ} {vlen : ℕ}
    (hvlen : intLen value base = .ok vlen) (slack kvSlack : ℕ) {s' : KvBuffer} {ok : Bool}
    (hrun : s.setInt key value base slack kvSlack = .ok (s', ok)) :
    SetDone extra s s' key (formatInt value base.toNat) (s.reusable key vlen)
      (s.canAppend (key.length + vlen)) ok := by
  have htext : key ≠ [] ∨ formatInt value base.toNat ≠ [] := .inr (formatInt_ne_nil _ _)
  have hlen : legalBase base → vlen = (formatInt value base.toNat).length := by
    intro hbase
    rw [intLen_eq value hbase] at hvlen
    exact (Except.ok.inj hvlen).symm
  unfold setInt at hrun
  simp only [hvlen, ok_then] at hrun
  rcases @take_cases extra s key vlen h with
    ⟨hre, hreuse, hdrop⟩ | ⟨before, p, after, hre, hreuse, hfits, hhad, hsound, hkvs,
      hmem, l₁, l₂, hb, ha, hr⟩
  · simp only [hre] at hrun
    rw [hreuse]
    cases hroom : s.canAppend (key.length + vlen) with
    | false =>
      obtain ⟨s₂, hrun₂, hkept⟩ := appendPairInt_full hdrop.sound hvlen
        (by rw [hdrop.canAppend, hroom]) slack kvSlack
      rw [hrun₂] at hrun
      cases hrun
      exact @append_done extra s key _ _ (formatInt value base.toNat) false hdrop hkept.sound
        (fun p hp => .inl (hkept.kvs ▸ hp))
        (by rw [live_kept hdrop.sound hkept]; exact (append_nil _).symm)
    | true =>
    cases hbase : legalBase base with
    | false =>
      exact absurd hrun (appendPairInt_illegal hdrop.sound hbase hvlen
        (by rw [hdrop.canAppend, hroom]) slack kvSlack _)
    | true =>
    obtain ⟨s₂, hrun₂, happ, -⟩ := appendPair_spec hdrop.sound key
      (formatInt value base.toNat) slack kvSlack
    rw [← hlen hbase, hdrop.canAppend, hroom] at hrun₂ happ
    rw [appendPairInt_legal _ _ _ hbase, hrun₂] at hrun
    cases hrun
    have hdone := @append_done extra s key _ _ (formatInt value base.toNat) true hdrop
      (happ rfl).sound (happ rfl).mem (live_appended hdrop.sound (happ rfl))
    rw [decide_eq_true htext] at hdone
    exact hdone
  simp only [hre, hkvs] at hrun
  cases hbase : legalBase base with
  | false =>
    rw [hbase] at hrun
    cases hrun
  | true =>
  rw [hlen hbase] at hfits
  obtain ⟨s₂, hrun₂, hdone⟩ := overwrite_done hfits hhad hsound hmem hb ha hr
    (s.canAppend (key.length + vlen))
  simp only [hbase, if_true, hrun₂] at hrun
  cases hrun
  rw [hreuse]
  exact hdone

theorem setInt_full (h : Sound extra s) {key : Bytes} {value base : ℤ} {vlen : ℕ}
    (hvlen : intLen value base = .ok vlen) (hreuse : s.reusable key vlen = false)
    (hroom : s.canAppend (key.length + vlen) = false) (slack kvSlack : ℕ) :
    ∃ s', s.setInt key value base slack kvSlack = .ok (s', false) := by
  rcases @take_cases extra s key vlen h with ⟨hre, -, hdrop⟩ | ⟨_, _, _, -, hyes, -⟩
  · obtain ⟨s', hrun, -⟩ := appendPairInt_full hdrop.sound hvlen
      (by rw [hdrop.canAppend, hroom]) slack kvSlack
    refine ⟨s', ?_⟩
    unfold setInt
    simp only [hvlen, ok_then, hre, hrun]
  · rw [hreuse] at hyes
    exact absurd hyes Bool.false_ne_true

theorem setInt_legal (h : Sound extra s) (key : Bytes) (value : ℤ) {base : ℤ}
    (hbase : legalBase base) (slack kvSlack : ℕ) :
    ∃ s' ok, s.setInt key value base slack kvSlack = .ok (s', ok) := by
  unfold setInt
  simp only [intLen_eq value hbase, ok_then]
  rcases @take_cases extra s key (formatInt value base.toNat).length h with
    ⟨hre, -, hdrop⟩ | ⟨before, p, after, hre, -, hfits, -, hsound, hkvs, -⟩
  · obtain ⟨s', hrun, -⟩ :=
      appendPair_spec hdrop.sound key (formatInt value base.toNat) slack kvSlack
    exact ⟨s', _, by simp only [hre, appendPairInt_legal _ _ _ hbase, hrun]; rfl⟩
  · obtain ⟨s', hrun, -⟩ := overwriteAt_spec hsound rfl hfits
    exact ⟨s', true, by simp only [hre, hkvs, hbase, if_true, hrun]; rfl⟩

/-- The key has one pair, with the value, and the other pairs are as they were. -/
structure OnlyPair (s s' : KvBuffer) (key value : Bytes) : Prop where
  one : (keyed key s'.live).length = 1
  found : s'.get key = value
  rest : others key s'.live = others key s.live

theorem told_iff {s' : KvBuffer} {value : Bytes} {reuse room ok : Bool}
    (h : SetDone extra s s' key value reuse room ok) :
    ((ok → OnlyPair s s' key value) ∧ (ok = false → s'.live = s.live)) ↔
      ((reuse ∨ room = true) ∧ (key ≠ [] ∨ value ≠ [])) ∨ key ∉ s.live.map Prod.fst := by
  have hnew := h.new
  have htold := h.told
  by_cases hdone : (reuse ∨ room = true) ∧ (key ≠ [] ∨ value ≠ [])
  · have hany : (reuse || room) := (Bool.or_eq_true _ _).symm ▸ hdone.1
    rw [hany, if_pos rfl, fresh_eq hdone.2] at hnew
    rw [decide_eq_true hdone.2, Bool.and_true, hany] at htold
    refine iff_of_true ⟨fun _ => ⟨by rw [hnew]; rfl, by rw [get_eq, hnew]; rfl, h.rest⟩, ?_⟩
      (.inl hdone)
    rw [htold]
    exact fun hno => absurd hno.symm Bool.false_ne_true
  have hnone : keyed key s'.live = [] := by
    rw [hnew]
    split_ifs with hany
    · refine if_pos ?_
      by_contra hne
      exact hdone ⟨(Bool.or_eq_true _ _) ▸ hany, Classical.not_and_iff_not_or_not.1 hne⟩
    · rfl
  have hlive := others_eq_self.2 (keyed_eq_nil.1 hnone)
  rw [or_iff_right hdone, ← hlive, h.rest, others_eq_self]
  cases hreuse : reuse with
  | true =>
    -- the pair written over has no bytes left
    have hok : ok := by rw [htold, hreuse, Bool.true_or]
    refine iff_of_false (fun hboth => ?_) (fun hno => hno (h.had hreuse))
    have := (hboth.1 hok).one
    rw [hnone] at this
    cases this
  | false =>
  have hok : ok = false := by
    rw [htold, hreuse, Bool.false_or, Bool.and_eq_false_imp]
    intro hroom
    exact decide_eq_false fun hne => hdone ⟨.inr hroom, hne⟩
  rw [hok]
  simp

end Set

inductive Call where
  | add (key value : Bytes)
  | set (key value : Bytes)
  | setInt (key : Bytes) (value base : ℤ)
deriving DecidableEq, Repr

def Call.run (c : Call) (s : KvBuffer) (slack kvSlack : ℕ) : Except Fault (KvBuffer × Bool) :=
  match c with
  | .add key value => s.add key value slack kvSlack
  | .set key value => s.set key value slack kvSlack
  | .setInt key value base => s.setInt key value base slack kvSlack

inductive Op where
  | call (c : Call) (slack kvSlack : ℕ)
  | reset (buf : Option Slice) (kvCap : ℕ)
  | enableBufferGrowth (enableGrowth : Bool)
deriving DecidableEq, Repr

def step (s : KvBuffer) : Op → Except Fault KvBuffer
  | .call c slack kvSlack => (c.run s slack kvSlack).map Prod.fst
  | .reset buf kvCap => .ok (s.reset buf kvCap)
  | .enableBufferGrowth enableGrowth => .ok (s.enableBufferGrowth enableGrowth)

/-- What a caller may conclude from the answer. -/
def Call.Truthful (c : Call) (s s' : KvBuffer) (ok : Bool) : Prop :=
  match ok, c with
  | false, _ => s'.live = s.live
  | true, .add key value => s'.live = s.live ++ [(key, value)]
  | true, .set key value => OnlyPair s s' key value
  | true, .setInt key value base => OnlyPair s s' key (formatInt value base.toNat)

/-- The pair is one that can be seen and there is a place for it, or no pair has its key. -/
def Call.Placed (c : Call) (s : KvBuffer) : Prop :=
  match c with
  | .add key value =>
    (s.canAppend (key.length + value.length) = true ∧ (key ≠ [] ∨ value ≠ [])) ∨
      key ∉ s.live.map Prod.fst
  | .set key value =>
    ((s.reusable key value.length = true ∨ s.canAppend (key.length + value.length) = true) ∧
      (key ≠ [] ∨ value ≠ [])) ∨ key ∉ s.live.map Prod.fst
  | .setInt key value base => ∀ vlen, intLen value base = .ok vlen →
      s.reusable key vlen = true ∨ s.canAppend (key.length + vlen) = true ∨
        key ∉ s.live.map Prod.fst

section
variable {extra : List Region}

theorem add_truthful {s : KvBuffer} (h : Sound extra s) (key value : Bytes) (slack kvSlack : ℕ) :
    (∀ s' ok, s.add key value slack kvSlack = .ok (s', ok) →
      (Call.add key value).Truthful s s' ok) ↔
      (Call.add key value).Placed s := by
  obtain ⟨s', hrun, -, -, hlive⟩ := add_spec h key value slack kvSlack
  have hone : (∀ t ok, s.add key value slack kvSlack = .ok (t, ok) →
      (Call.add key value).Truthful s t ok) ↔
      (Call.add key value).Truthful s s' (decide (key ∈ s'.live.map Prod.fst)) := by
    refine ⟨fun hall => hall _ _ hrun, fun htrue t ok ht => ?_⟩
    rw [hrun] at ht
    cases ht
    exact htrue
  rw [hone]
  by_cases hplace : s.canAppend (key.length + value.length) ∧ (key ≠ [] ∨ value ≠ [])
  · rw [if_pos hplace.1, fresh_eq hplace.2] at hlive
    rw [decide_eq_true (by rw [hlive]; simp)]
    exact iff_of_true hlive (.inl hplace)
  have hsame : s'.live = s.live := by
    rw [hlive]
    split_ifs with hroom
    · rw [fresh, if_pos, append_nil]
      by_contra hne
      exact hplace ⟨hroom, Classical.not_and_iff_not_or_not.1 hne⟩
    · exact append_nil _
  rw [hsame]
  change _ ↔ (_ ∧ _) ∨ _
  rw [or_iff_right hplace]
  by_cases hin : key ∈ s.live.map Prod.fst
  · rw [decide_eq_true hin]
    refine iff_of_false (fun htrue => ?_) (fun hno => hno hin)
    have := congrArg length (hsame.symm.trans htrue)
    simp at this
  · rw [decide_eq_false hin]
    exact iff_of_true hsame hin

theorem done_truthful {s s' : KvBuffer} {key value : Bytes}
    {reuse room ok : Bool} (h : SetDone extra s s' key value reuse room ok) {c : Call}
    (hc : c.Truthful s s' true = OnlyPair s s' key value) :
    c.Truthful s s' ok ↔ ((reuse ∨ room = true) ∧ (key ≠ [] ∨ value ≠ [])) ∨
      key ∉ s.live.map Prod.fst := by
  rw [← told_iff h]
  cases ok with
  | true =>
    rw [hc]
    simp
  | false =>
    change s'.live = s.live ↔ _
    simp

theorem set_truthful {s : KvBuffer} (h : Sound extra s) (key value : Bytes) (slack kvSlack : ℕ) :
    (∀ s' ok, s.set key value slack kvSlack = .ok (s', ok) →
      (Call.set key value).Truthful s s' ok) ↔
      (Call.set key value).Placed s := by
  obtain ⟨s', ok, hrun, hdone⟩ := set_spec h key value slack kvSlack
  have hiff := @done_truthful extra s s' key value _ _ ok hdone (.set key value) rfl
  refine ⟨fun hall => hiff.1 (hall s' ok hrun), fun hplace t ok' ht => ?_⟩
  rw [hrun] at ht
  cases ht
  exact hiff.2 hplace

theorem setInt_truthful {s : KvBuffer} (h : Sound extra s) (key : Bytes)
    (value base : ℤ) (slack kvSlack : ℕ) :
    (∀ s' ok, s.setInt key value base slack kvSlack = .ok (s', ok) →
      (Call.setInt key value base).Truthful s s' ok) ↔ (Call.setInt key value base).Placed s := by
  constructor
  · intro hall vlen hvlen
    by_contra hno
    rw [not_or, not_or, Bool.not_eq_true, Bool.not_eq_true] at hno
    obtain ⟨hreuse, hroom, hin⟩ := hno
    obtain ⟨s', hrun⟩ := setInt_full h hvlen hreuse hroom slack kvSlack
    have hdone := setInt_spec h key hvlen slack kvSlack hrun
    have hiff := @done_truthful extra s s' key _ _ _ false hdone (.setInt key value base) rfl
    rcases hiff.1 (hall s' false hrun) with ⟨hplace, -⟩ | hno
    · rw [hreuse, hroom] at hplace
      simp at hplace
    · exact hin hno
  intro hplace s' ok hrun
  cases hvlen : intLen value base with
  | error e =>
    unfold setInt at hrun
    rw [hvlen] at hrun
    cases hrun
  | ok vlen =>
  have hdone := setInt_spec h key hvlen slack kvSlack hrun
  refine (@done_truthful extra s s' key _ _ _ ok hdone (.setInt key value base) rfl).2 ?_
  have htext : key ≠ [] ∨ formatInt value base.toNat ≠ [] := .inr (formatInt_ne_nil _ _)
  rcases hplace vlen hvlen with hre | hroom | hout
  · exact .inl ⟨.inl hre, htext⟩
  · exact .inl ⟨.inr hroom, htext⟩
  · exact .inr hout

end

theorem sound_empty (buf : Slice) (kvCap : ℕ) (flags : Flags) :
    Sound [] { buf := buf, kvs := [], kvCap := kvCap, flags := flags } := by
  refine ⟨?_, ?_, .nil, ?_, ?_, .nil, ?_, ?_, ?_⟩ <;> simp

theorem step_sound (s : KvBuffer) (op : Op) (s' : KvBuffer) (h : Sound [] s)
    (hstep : step s op = .ok s') : Sound [] s' := by
  cases op with
  | call c slack kvSlack =>
    obtain ⟨ok, hrun⟩ := map_fst_ok hstep
    cases c with
    | add key value =>
      obtain ⟨t, ht, hsound, -⟩ := add_spec h key value slack kvSlack
      cases hrun.symm.trans ht
      exact hsound
    | set key value =>
      obtain ⟨t, ok', ht, hdone⟩ := set_spec h key value slack kvSlack
      cases hrun.symm.trans ht
      exact hdone.sound
    | setInt key value base =>
    cases hvlen : intLen value base with
    | error e =>
      simp only [Call.run, setInt, hvlen] at hrun
      cases hrun
    | ok vlen => exact (setInt_spec h key hvlen slack kvSlack hrun).sound
  | reset buf kvCap =>
    cases hstep
    exact sound_empty _ _ _
  | enableBufferGrowth enableGrowth =>
    cases hstep
    exact h.of_eq rfl rfl

/-- After any calls, the answer of the next one is true exactly if its pair is placed. -/
theorem truthful_iff_placed (ops : List Op) (s : KvBuffer) (hrun : exec step {} ops = .ok s)
    (c : Call) (slack kvSlack : ℕ) :
    (∀ s' ok, c.run s slack kvSlack = .ok (s', ok) → c.Truthful s s' ok) ↔ c.Placed s := by
  have h := exec_always step_sound ops {} s (sound_empty _ _ _) hrun
  cases c with
  | add key value => exact add_truthful h key value slack kvSlack
  | set key value => exact set_truthful h key value slack kvSlack
  | setInt key value base => exact setInt_truthful h key value base slack kvSlack

def fourBytes : List Op :=
  [.enableBufferGrowth false, .reset (some { mem := [0, 0, 0, 0] }) 4, .call (.add [97] [98]) 0 0]

theorem truthful_iff_placed_overwritten : ∃ s, exec step {} fourBytes = .ok s ∧
    (Call.set [97] [99]).Placed s ∧
    ∀ s' ok, (Call.set [97] [99]).run s 0 0 = .ok (s', ok) →
      (Call.set [97] [99]).Truthful s s' ok := by
  have hrun : ∃ s, exec step {} fourBytes = .ok s ∧ s.reusable [97] 1 = true :=
    exists_exec (by decide +kernel)
  obtain ⟨s, hs, hreuse⟩ := hrun
  have hplaced : (Call.set [97] [99]).Placed s := .inl ⟨.inl hreuse, .inl (by decide)⟩
  exact ⟨s, hs, hplaced, (truthful_iff_placed fourBytes s hs (.set [97] [99]) 0 0).2 hplaced⟩

/-- In the full store a second pair is reported as added and is not there, and setting a
longer value is reported as failed and takes the pair away. -/
theorem full_store_misreports : ∃ s, exec step {} fourBytes = .ok s ∧ s.live = [([97], [98])] ∧
    (((Call.add [97] [99]).run s 0 0).toOption.map fun r => (r.1.live, r.2)) =
      some ([([97], [98])], true) ∧
    (((Call.set [97] [99, 99]).run s 0 0).toOption.map fun r => (r.1.live, r.2)) =
      some ([], false) :=
  exists_exec (by decide +kernel)

end Lneto.KeyValues
