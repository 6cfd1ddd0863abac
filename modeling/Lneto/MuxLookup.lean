import Lneto.PathPatterns
import Mathlib.Data.Int.Notation
import Mathlib.Data.List.Induction

/-!
The table of routes. Registrations are scanned in order, and one that cannot
beat the best match so far is not tried. The values of the path serve as
scratch; they are bound anew for a winner with wildcards, but stay as the scan
left them for one without.
-/
namespace Lneto.MuxLookup

open PathPatterns List

inductive Method where
  | undefined | get | head | post | put | patch | delete | connect | options | trace | unknown
deriving DecidableEq, Repr

def methodFrom (meth : Bytes) : Method :=
  if meth = [] then .undefined
  else if meth = [71, 69, 84] then .get
  else if meth = [72, 69, 65, 68] then .head
  else if meth = [80, 79, 83, 84] then .post
  else if meth = [80, 85, 84] then .put
  else if meth = [80, 65, 84, 67, 72] then .patch
  else if meth = [68, 69, 76, 69, 84, 69] then .delete
  else if meth = [67, 79, 78, 78, 69, 67, 84] then .connect
  else if meth = [79, 80, 84, 73, 79, 78, 83] then .options
  else if meth = [84, 82, 65, 67, 69] then .trace
  else .unknown

/-- Handlers are told apart by a number; nil is one that was not set. -/
structure Endpoint where
  method : Method
  path : Bytes
  handler : Option ℕ
  pathVals : ℕ
  spec : ℕ
deriving DecidableEq, Repr

def specificityLoop (spec : ℕ) : List Bytes → ℕ
  | [] => spec
  | seg :: segs =>
    if seg = [] ∧ segs = [] then spec
    else
      match pathWildcard seg with
      | some (name, isMulti) =>
        if name = [36] then spec + 1
        else if isMulti then spec
        else if segs = [] then spec + 1 + 1
        else specificityLoop (spec + 1) segs
      | none => if segs = [] then spec + 2 + 1 else specificityLoop (spec + 2) segs

def patternSpecificity (pattern : Bytes) : ℕ :=
  if pattern.head? = some slash then specificityLoop 0 (segments (pattern.drop 1)) else 0

def named (seg : Bytes) : Bool :=
  match pathWildcard seg with
  | some (name, _) => name != [] && name != [36]
  | none => false

def countPathValues (pattern : Bytes) : ℕ :=
  if pattern.head? = some slash then (segments (pattern.drop 1)).countP named else 0

def hasLowerASCII (s : Bytes) : Bool := s.any fun c => 97 ≤ c && c ≤ 122

inductive Refusal where
  | lowerMethod
  | unrootedPath
  | extensionRegistered
  | duplicate
deriving DecidableEq, Repr

def handle (sm : List Endpoint) (optMethodAndPath : Bytes) (handler : Option ℕ) :
    Except Refusal (List Endpoint) :=
  let methodFound := optMethodAndPath.contains 32
  let methodOrURL := optMethodAndPath.takeWhile (· != 32)
  let url := if methodFound then (optMethodAndPath.dropWhile (· != 32)).drop 1 else methodOrURL
  let method := if methodFound then methodFrom methodOrURL else .undefined
  if methodFound && hasLowerASCII methodOrURL then .error .lowerMethod
  else if url.head? ≠ some slash then .error .unrootedPath
  else if sm.any fun e => e.method == method && e.path == url then
    .error (if method = .unknown then .extensionRegistered else .duplicate)
  else
    .ok (sm ++ [{ method := method, path := url, handler := handler,
                  pathVals := countPathValues url, spec := patternSpecificity url }])

def handleAll : List Endpoint → List (Bytes × Option ℕ) → Except Refusal (List Endpoint)
  | sm, [] => .ok sm
  | sm, (reg, handler) :: regs =>
    match handle sm reg handler with
    | .error r => .error r
    | .ok sm => handleAll sm regs

/-- The length of the values; nothing is registered without a minus one. -/
def maxPathValues (sm : List Endpoint) : ℤ :=
  if sm = [] then -1 else ((sm.map Endpoint.pathVals).foldl max 0 : ℕ)

structure Scan where
  best : Option Endpoint
  dst : List PathValue
deriving DecidableEq, Repr

def methodFits (method : Method) (e : Endpoint) : Bool :=
  e.method == .undefined || e.method == method

/-- An endpoint that cannot beat the incumbent. -/
def beaten (best : Option Endpoint) (e : Endpoint) : Bool := best.any fun b => e.spec ≤ b.spec

def scanStep (method : Method) (path : Bytes) (s : Scan) (e : Endpoint) : Scan :=
  if !methodFits method e then s
  else if beaten s.best e then s
  else if isWildcardPattern e.path then
    let r := setPathValues s.dst e.path path
    { best := if r.2.1 then some e else s.best, dst := r.1 }
  else { s with best := if path = e.path then some e else s.best }

structure Looked where
  pattern : Bytes
  handler : Option ℕ
  dst : List PathValue
deriving DecidableEq, Repr

def lookupHandler (sm : List Endpoint) (method : Method) (path : Bytes) (dst : List PathValue) :
    Looked :=
  let s := sm.foldl (scanStep method path) { best := none, dst := dst }
  match s.best with
  | none => ⟨[], none, s.dst⟩
  | some winner =>
    if isWildcardPattern winner.path then
      ⟨winner.path, winner.handler,
        (setPathValues (List.replicate s.dst.length .zero) winner.path path).1⟩
    else ⟨winner.path, winner.handler, s.dst⟩

/-- The search ends at the first value without a key. -/
def pathValue (pathValues : List PathValue) (key : Bytes) : Option Bytes :=
  match pathValues with
  | [] => none
  | v :: rest =>
    if v.key = key then v.value else if v.key = [] then none else pathValue rest key

/-- The highest score among the elements that are wanted, the first one among equals. -/
structure IsBest (score : Endpoint → ℕ) (wanted : Endpoint → Prop) (sm : List Endpoint)
    (e : Endpoint) : Prop where
  wants : wanted e
  place : ∃ before after, sm = before ++ e :: after ∧
    (∀ f ∈ before, wanted f → score f < score e) ∧ ∀ f ∈ after, wanted f → score f ≤ score e

section Best
variable {score : Endpoint → ℕ} {wanted : Endpoint → Prop} {sm : List Endpoint} {e f : Endpoint}

theorem IsBest.mem (h : IsBest score wanted sm e) : e ∈ sm := by
  obtain ⟨before, after, rfl, -⟩ := h.place
  exact mem_append_right _ mem_cons_self

theorem IsBest.unique (he : IsBest score wanted sm e) (hf : IsBest score wanted sm f) : e = f := by
  obtain ⟨b, a, hsm, hb, ha⟩ := he.place
  obtain ⟨b', a', hsm', hb', ha'⟩ := hf.place
  rw [hsm] at hsm'
  -- one of the two comes first, or they are at the same place
  rcases append_eq_append_iff.1 hsm' with ⟨c, hc, hc'⟩ | ⟨c, hc, hc'⟩
  · cases c with
    | nil =>
      simp only [nil_append, cons.injEq] at hc'
      exact hc'.1
    | cons x c =>
    simp only [cons_append, cons.injEq] at hc'
    have h1 := hb' e (by rw [hc, hc'.1]; simp) he.wants
    have h2 := ha f (by rw [hc'.2]; simp) hf.wants
    omega
  cases c with
  | nil =>
    simp only [nil_append, cons.injEq] at hc'
    exact hc'.1.symm
  | cons x c =>
  simp only [cons_append, cons.injEq] at hc'
  have h1 := hb f (by rw [hc, hc'.1]; simp) hf.wants
  have h2 := ha' e (by rw [hc'.2]; simp) he.wants
  omega

theorem IsBest.narrow {wanted' : Endpoint → Prop} (h : IsBest score wanted sm e)
    (hsub : ∀ f, wanted' f → wanted f) (he : wanted' e) : IsBest score wanted' sm e := by
  obtain ⟨b, a, hsm, hb, ha⟩ := h.place
  exact ⟨he, b, a, hsm, fun f hf hw => hb f hf (hsub f hw), fun f hf hw => ha f hf (hsub f hw)⟩

theorem IsBest.congr {score' : Endpoint → ℕ} (hs : ∀ e ∈ sm, score e = score' e)
    (h : IsBest score wanted sm e) : IsBest score' wanted sm e := by
  obtain ⟨b, a, hsm, hb, ha⟩ := h.place
  have hmem : ∀ f, f ∈ b ∨ f = e ∨ f ∈ a → score f = score' f := by
    intro f hf
    apply hs
    rcases hf with hf | rfl | hf <;> simp [*]
  refine ⟨h.wants, b, a, hsm, fun f hf hw => ?_, fun f hf hw => ?_⟩
  · rw [← hmem f (.inl hf), ← hmem e (.inr (.inl rfl))]
    exact hb f hf hw
  · rw [← hmem f (.inr (.inr hf)), ← hmem e (.inr (.inl rfl))]
    exact ha f hf hw

end Best

def pick (wanted : Endpoint → Bool) (best : Option Endpoint) (e : Endpoint) : Option Endpoint :=
  if wanted e && !beaten best e then some e else best

theorem pick_best (wanted : Endpoint → Bool) (sm : List Endpoint) :
    match sm.foldl (pick wanted) none with
    | none => ∀ f ∈ sm, wanted f = false
    | some e => IsBest Endpoint.spec (fun f => wanted f) sm e := by
  induction sm using reverseRecOn with
  | nil => simp
  | append_singleton sm e ih =>
  rw [foldl_append]
  cases hbest : sm.foldl (pick wanted) none with
  | none =>
    simp only [hbest] at ih
    cases hw : wanted e with
    | false =>
      simp only [foldl_cons, foldl_nil, pick, hw, Bool.false_and, Bool.false_eq_true,
        if_false, mem_append, mem_singleton]
      rintro f (hf | rfl)
      · exact ih f hf
      · exact hw
    | true =>
    simp only [foldl_cons, foldl_nil, pick, hw, beaten, Option.any_none,
      Bool.not_false, Bool.and_self, if_true]
    refine ⟨hw, sm, [], rfl, fun f hf hwf => ?_, by simp⟩
    rw [ih f hf] at hwf
    cases hwf
  | some b =>
  simp only [hbest] at ih
  obtain ⟨before, after, hsm, hb, ha⟩ := ih.place
  by_cases htake : wanted e ∧ b.spec < e.spec
  · have hpick : pick wanted (some b) e = some e := by simp [pick, beaten, htake.1, htake.2]
    simp only [foldl_cons, foldl_nil, hpick]
    refine ⟨htake.1, sm, [], rfl, fun f hf hwf => ?_, by simp⟩
    rw [hsm] at hf
    rcases mem_append.1 hf with hf | hf
    · exact Nat.lt_trans (hb f hf hwf) htake.2
    rcases mem_cons.1 hf with rfl | hf
    · exact htake.2
    · exact Nat.lt_of_le_of_lt (ha f hf hwf) htake.2
  have hpick : pick wanted (some b) e = some b := by
    rw [pick, if_neg]
    simp only [beaten, Option.any_some, Bool.and_eq_true, Bool.not_eq_true',
      decide_eq_false_iff_not, Nat.not_le]
    exact htake
  simp only [foldl_cons, foldl_nil, hpick]
  refine ⟨ih.wants, before, after ++ [e], by simp [hsm], hb, fun f hf hwf => ?_⟩
  rcases mem_append.1 hf with hf | hf
  · exact ha f hf hwf
  obtain rfl := mem_singleton.1 hf
  by_contra hlt
  exact htake ⟨hwf, Nat.not_le.1 hlt⟩

def tried (method : Method) (path : Bytes) (room : ℕ) : Option Endpoint → List Endpoint →
    List Endpoint
  | _, [] => []
  | best, e :: es =>
    if methodFits method e && !beaten best e then
      (if isWildcardPattern e.path then [e] else []) ++
        tried method path room (if hits room e.path path then some e else best) es
    else tried method path room best es

def chosen (method : Method) (path : Bytes) (room : ℕ) (e : Endpoint) : Bool :=
  methodFits method e && hits room e.path path

def Registered (sm : List Endpoint) : Prop :=
  ∀ e ∈ sm, e.path.head? = some slash ∧ e.spec = patternSpecificity e.path ∧
    e.pathVals = countPathValues e.path

theorem registered_handleAll (regs : List (Bytes × Option ℕ)) : ∀ (sm sm' : List Endpoint),
    Registered sm → handleAll sm regs = .ok sm' → Registered sm' := by
  induction regs with
  | nil =>
    intro sm sm' hreg h
    cases h
    exact hreg
  | cons r regs ih =>
  intro sm sm' hreg h
  obtain ⟨reg, handler⟩ := r
  unfold handleAll at h
  cases hone : handle sm reg handler with
  | error refusal =>
    rw [hone] at h
    cases h
  | ok next =>
  rw [hone] at h
  refine ih next sm' ?_ h
  unfold handle at hone
  simp only at hone
  split_ifs at hone with h1 h2 h3
  all_goals
    cases hone
    intro e he
    rcases mem_append.1 he with he | he
    · exact hreg e he
    · obtain rfl := mem_singleton.1 he
      exact ⟨Decidable.not_not.1 ‹_›, rfl, rfl⟩

theorem length_overlay (dst : List PathValue) (pattern path : Bytes) :
    (overlay dst pattern path).length = dst.length := by
  unfold overlay
  cases hhit : hits dst.length pattern path with
  | false =>
    simp only [Bool.false_eq_true, if_false, length_append, length_replicate, length_drop]
    omega
  | true =>
  rw [hits, Bool.and_eq_true, decide_eq_true_eq] at hhit
  simp only [if_true, length_append, length_drop]
  omega

theorem scan_eq (method : Method) (path : Bytes) (es : List Endpoint) :
    ∀ (best : Option Endpoint) (dst : List PathValue), (∀ e ∈ es, e.path.head? = some slash) →
    es.foldl (scanStep method path) { best := best, dst := dst } =
      { best := es.foldl (pick (chosen method path dst.length)) best
        dst := (tried method path dst.length best es).foldl (fun d e => overlay d e.path path)
          dst } := by
  induction es with
  | nil =>
    intro best dst _
    rfl
  | cons e es ih =>
  intro best dst hroot
  have hrest : ∀ f ∈ es, f.path.head? = some slash := fun f hf => hroot f (mem_cons_of_mem e hf)
  rw [foldl_cons, foldl_cons, tried]
  cases htry : methodFits method e && !beaten best e with
  | false =>
    have hstep : scanStep method path { best := best, dst := dst } e =
        { best := best, dst := dst } := by
      unfold scanStep
      cases hm : methodFits method e with
      | false => simp
      | true =>
        rw [hm, Bool.true_and, Bool.not_eq_false'] at htry
        simp [htry]
    have hpick : pick (chosen method path dst.length) best e = best := by
      rw [pick, chosen, Bool.and_right_comm, htry, Bool.false_and]
      rfl
    rw [hstep, hpick, ih best dst hrest]
    rfl
  | true =>
  rw [Bool.and_eq_true, Bool.not_eq_true'] at htry
  have hpick : pick (chosen method path dst.length) best e =
      if hits dst.length e.path path then some e else best := by
    rw [pick, chosen, htry.1, htry.2, Bool.true_and, Bool.not_false, Bool.and_true]
  rw [hpick]
  cases hwild : isWildcardPattern e.path with
  | false =>
    have hstep : scanStep method path { best := best, dst := dst } e =
        { best := if hits dst.length e.path path then some e else best, dst := dst } := by
      rw [hits, walk_plain (hroot e mem_cons_self) hwild]
      simp [scanStep, htry.1, htry.2, hwild]
    rw [hstep, ih _ dst hrest]
    rfl
  | true =>
  have hset := setPathValues_eq dst e.path path
  have hstep : scanStep method path { best := best, dst := dst } e =
      { best := if hits dst.length e.path path then some e else best
        dst := overlay dst e.path path } := by
    simp [scanStep, htry.1, htry.2, hwild, hset.1, hset.2]
  rw [hstep, ih _ _ hrest, length_overlay]
  rfl

/-- The last of the tried patterns that comes far enough to bind a place. -/
def lastAt (path : Bytes) (k : ℕ) (es : List Endpoint) : Option Endpoint :=
  (es.filter fun e => decide (k < (walk e.path path).1.length)).getLast?

theorem getElem?_overlay {dst : List PathValue} {pattern path : Bytes} {k : ℕ}
    (hk : k < dst.length) : (overlay dst pattern path)[k]? =
      if k < (walk pattern path).1.length then
        if hits dst.length pattern path then (walk pattern path).1[k]? else some .zero
      else dst[k]? := by
  unfold overlay
  by_cases hin : k < (walk pattern path).1.length
  · rw [if_pos hin]
    cases hhit : hits dst.length pattern path with
    | false =>
      simp only [Bool.false_eq_true, if_false]
      rw [getElem?_append_left (by simp; omega), getElem?_replicate, if_pos (by omega)]
    | true =>
      simp only [if_true]
      rw [getElem?_append_left hin]
  rw [if_neg hin]
  have hn : min (walk pattern path).1.length dst.length = (walk pattern path).1.length := by omega
  simp only [hn]
  have hfront : (if hits dst.length pattern path then (walk pattern path).1
      else replicate (walk pattern path).1.length .zero).length =
      (walk pattern path).1.length := by
    split_ifs <;> simp
  rw [getElem?_append_right (by omega), hfront, getElem?_drop]
  congr 1
  omega

theorem length_overlays (path : Bytes) (es : List Endpoint) : ∀ dst : List PathValue,
    (es.foldl (fun d e => overlay d e.path path) dst).length = dst.length := by
  induction es with
  | nil =>
    intro dst
    rfl
  | cons e es ih =>
    intro dst
    rw [foldl_cons, ih, length_overlay]

theorem getElem?_overlays (path : Bytes) (k : ℕ) (es : List Endpoint) :
    ∀ dst : List PathValue, k < dst.length → (es.foldl (fun d e => overlay d e.path path) dst)[k]? =
      match lastAt path k es with
      | none => dst[k]?
      | some e => if hits dst.length e.path path then (walk e.path path).1[k]? else some .zero := by
  induction es using reverseRecOn with
  | nil =>
    intro dst _
    rfl
  | append_singleton es e ih =>
  intro dst hk
  have hlen := length_overlays path es dst
  rw [foldl_append, foldl_cons, foldl_nil, getElem?_overlay (by omega), hlen, ih dst hk]
  unfold lastAt
  by_cases hin : k < (walk e.path path).1.length
  · simp [hin]
  · simp [hin]

/-- The last pattern that came to a place failed, or none came and it was zero before. -/
def Clean (path : Bytes) (dst : List PathValue) (es : List Endpoint) : Prop :=
  ∀ k < dst.length,
    match lastAt path k es with
    | none => dst[k]? = some .zero
    | some e => hits dst.length e.path path = false

theorem clean_iff (path : Bytes) (dst : List PathValue) (es : List Endpoint) :
    es.foldl (fun d e => overlay d e.path path) dst = replicate dst.length .zero ↔
      Clean path dst es := by
  have hplace : ∀ k < dst.length,
      ((es.foldl (fun d e => overlay d e.path path) dst)[k]? = some .zero ↔
        match lastAt path k es with
        | none => dst[k]? = some .zero
        | some e => hits dst.length e.path path = false) := by
    intro k hk
    rw [getElem?_overlays path k es dst hk]
    cases hlast : lastAt path k es with
    | none => rfl
    | some e =>
    cases hhit : hits dst.length e.path path with
    | false => simp [hhit]
    | true =>
    have hin : k < (walk e.path path).1.length := by
      have hmem := mem_of_getLast? hlast
      exact of_decide_eq_true (mem_filter.1 hmem).2
    -- a value that is bound is not zero
    have hval := (walk_keys _ _).2 _ (getElem_mem hin)
    simp only [hhit, if_true, getElem?_eq_getElem hin, Option.some.injEq,
      Bool.true_eq_false, iff_false]
    intro hzero
    rw [hzero] at hval
    exact hval rfl
  constructor
  · intro h k hk
    rw [← hplace k hk, h, getElem?_replicate, if_pos hk]
  intro h
  apply ext_getElem?
  intro k
  by_cases hk : k < dst.length
  · rw [(hplace k hk).2 (h k hk), getElem?_replicate, if_pos hk]
  · rw [getElem?_eq_none (by rw [length_overlays]; omega),
      getElem?_eq_none (by rw [length_replicate]; omega)]

def Matches (method : Method) (path : Bytes) (e : Endpoint) : Prop :=
  methodFits method e = true ∧ (walk e.path path).2 = true

/-- The most specific match, the earliest among equals. -/
def Best (sm : List Endpoint) (method : Method) (path : Bytes) (e : Endpoint) : Prop :=
  IsBest (fun e => patternSpecificity e.path) (Matches method path) sm e

/-- The winner of a lookup with its values and zero values behind them, or no match. -/
structure Right (sm : List Endpoint) (method : Method) (path : Bytes) (room : ℕ) (r : Looked) :
    Prop where
  found : (∃ e, Best sm method path e ∧ r.pattern = e.path ∧ r.handler = e.handler ∧
      r.dst = (walk e.path path).1 ++
        List.replicate (room - (walk e.path path).1.length) .zero) ∨
    (∀ e ∈ sm, ¬ Matches method path e) ∧ r.pattern = [] ∧ r.dst = List.replicate room .zero
  nil : r.handler = none ↔ ∀ e ∈ sm, ¬ Matches method path e
  values : ∀ key, key ∉ wildcards (r.pattern.drop 1) → pathValue r.dst key = none

theorem pathValue_zeros (bound : List PathValue) (n : ℕ) (key : Bytes)
    (h : ∀ v ∈ bound, v.key ≠ key) : pathValue (bound ++ replicate n .zero) key = none := by
  induction bound with
  | nil =>
    cases n with
    | zero => rfl
    | succ n =>
      rw [nil_append, replicate_succ, pathValue]
      exact (if_congr Iff.rfl rfl (if_pos rfl)).trans (ite_self _)
  | cons v rest ih =>
    rw [cons_append, pathValue, if_neg (h v mem_cons_self),
      ih fun w hw => h w (mem_cons_of_mem _ hw), ite_self]

section Lookup
variable {sm : List Endpoint} {method : Method} {path : Bytes} {dst : List PathValue}

section
variable (hreg : Registered sm)
include hreg

theorem lookup_eq : lookupHandler sm method path dst =
      match sm.foldl (pick (chosen method path dst.length)) none with
      | none => ⟨[], none, (tried method path dst.length none sm).foldl
          (fun d e => overlay d e.path path) dst⟩
      | some e =>
        ⟨e.path, e.handler, if isWildcardPattern e.path then (walk e.path path).1 ++
              replicate (dst.length - (walk e.path path).1.length) .zero
          else (tried method path dst.length none sm).foldl
            (fun d e => overlay d e.path path) dst⟩ := by
  have hroot : ∀ e ∈ sm, e.path.head? = some slash := fun e he => (hreg e he).1
  unfold lookupHandler
  rw [scan_eq method path sm none dst hroot]
  have hbest := pick_best (chosen method path dst.length) sm
  cases hpick : sm.foldl (pick (chosen method path dst.length)) none with
  | none => rfl
  | some e =>
  simp only [hpick] at hbest ⊢
  cases hwild : isWildcardPattern e.path with
  | false => rfl
  | true =>
  simp only [if_true]
  rw [length_overlays, (setPathValues_eq _ _ _).1, overlay, length_replicate]
  have hhit : hits dst.length e.path path := by
    have := hbest.wants
    rw [chosen, Bool.and_eq_true] at this
    exact this.2
  have hle : (walk e.path path).1.length ≤ dst.length := by
    rw [hits, Bool.and_eq_true, decide_eq_true_eq] at hhit
    exact hhit.2
  rw [hhit, if_pos rfl, Nat.min_eq_left hle, drop_replicate]

theorem length_lookup : (lookupHandler sm method path dst).dst.length = dst.length := by
  rw [lookup_eq hreg]
  have hbest := pick_best (chosen method path dst.length) sm
  cases hpick : sm.foldl (pick (chosen method path dst.length)) none with
  | none => exact length_overlays _ _ _
  | some e =>
  simp only [hpick] at hbest ⊢
  have hle := hbest.wants
  simp only [chosen, hits, Bool.and_eq_true, decide_eq_true_eq] at hle
  split_ifs
  · rw [length_append, length_replicate]
    omega
  · exact length_overlays _ _ _

theorem best_exists {f : Endpoint} (hf : f ∈ sm)
    (hm : Matches method path f) : ∃ e, Best sm method path e := by
  have hbest := pick_best (fun f => methodFits method f && (walk f.path path).2) sm
  cases hpick : sm.foldl (pick fun f => methodFits method f && (walk f.path path).2) none with
  | none =>
    simp only [hpick] at hbest
    have hno := hbest f hf
    rw [hm.1, hm.2] at hno
    cases hno
  | some e =>
  simp only [hpick] at hbest
  exact ⟨e, (hbest.congr fun e he => (hreg e he).2.1).narrow
    (fun f hf => by rw [hf.1, hf.2]; rfl) (Bool.and_eq_true_iff.1 hbest.wants)⟩

theorem winner_of_best {e : Endpoint} (he : Best sm method path e)
    (hfits : (walk e.path path).1.length ≤ dst.length) :
    sm.foldl (pick (chosen method path dst.length)) none = some e := by
  have hchosen : chosen method path dst.length e := by
    rw [chosen, hits, he.wants.1, he.wants.2, decide_eq_true hfits]
    rfl
  have hnarrow : IsBest Endpoint.spec (fun f => chosen method path dst.length f) sm e := by
    refine (IsBest.congr (fun e he => (hreg e he).2.1.symm) he).narrow (fun f hf => ?_) hchosen
    simp only [chosen, hits, Bool.and_eq_true] at hf
    exact ⟨hf.1, hf.2.1⟩
  have hbest := pick_best (chosen method path dst.length) sm
  cases hpick : sm.foldl (pick (chosen method path dst.length)) none with
  | none =>
    simp only [hpick] at hbest
    rw [hbest e he.mem] at hchosen
    cases hchosen
  | some w =>
    simp only [hpick] at hbest
    rw [hbest.unique hnarrow]

end

theorem matches_of_winner {w : Endpoint}
    (h : sm.foldl (pick (chosen method path dst.length)) none = some w) :
    w ∈ sm ∧ Matches method path w := by
  have hbest := pick_best (chosen method path dst.length) sm
  simp only [h] at hbest
  refine ⟨hbest.mem, ?_⟩
  have hw := hbest.wants
  simp only [chosen, hits, Bool.and_eq_true] at hw
  exact ⟨hw.1, hw.2.1⟩

/-- Values of the advertised number have room for every pattern whose wildcards have names. -/
theorem room_of_named (hreg : Registered sm) {e : Endpoint} (he : e ∈ sm)
    (hnamed : [] ∉ wildcards (e.path.drop 1)) :
    ((walk e.path path).1.length : ℤ) ≤ maxPathValues sm := by
  have hwalk := (walk_keys e.path path).1.length_le
  have hcount : (wildcards (e.path.drop 1)).length ≤ e.pathVals := by
    rw [(hreg e he).2.2, countPathValues, if_pos (hreg e he).1, wildcards,
      length_filterMap_eq_countP]
    refine countP_mono_left fun seg hseg hbound => ?_
    have hne : boundName seg ≠ some [] := fun h => hnamed (mem_filterMap.2 ⟨seg, hseg, h⟩)
    unfold boundName at hbound hne
    unfold named
    grind
  have hmax : e.pathVals ≤ (sm.map Endpoint.pathVals).foldl max 0 := by
    rw [foldl_max]
    exact Nat.le_trans (le_max?_getD_of_mem (mem_map_of_mem he)) (Nat.le_max_right _ _)
  rw [length_map] at hwalk
  rw [maxPathValues, if_neg (ne_nil_of_mem he)]
  omega

end Lookup

/-- A lookup is right exactly when the best match has a handler and room for its values, and
the scan leaves none behind for a winner that binds none. -/
theorem lookup_right_iff (regs : List (Bytes × Option ℕ)) (sm : List Endpoint)
    (hsm : handleAll [] regs = .ok sm) (method : Method) (path : Bytes) (dst : List PathValue) :
    Right sm method path dst.length (lookupHandler sm method path dst) ↔
      (∀ e, Best sm method path e → e.handler ≠ none ∧ (walk e.path path).1.length ≤ dst.length) ∧
      ((∀ e, Best sm method path e → isWildcardPattern e.path = false) →
        Clean path dst (tried method path dst.length none sm)) := by
  have hreg : Registered sm := registered_handleAll regs [] sm (by simp [Registered]) hsm
  constructor
  · intro h
    have hfirst : ∀ e, Best sm method path e →
        e.handler ≠ none ∧ (walk e.path path).1.length ≤ dst.length := by
      intro e he
      rcases h.found with ⟨e', he', -, hhandler, hdst⟩ | ⟨hno, -⟩
      · obtain rfl := IsBest.unique he he'
        constructor
        · rw [← hhandler, ne_eq, h.nil]
          exact fun hno => hno e he.mem he.wants
        have hlen := @length_lookup sm method path dst hreg
        rw [hdst, length_append, length_replicate] at hlen
        omega
      · exact absurd he.wants (hno e he.mem)
    refine ⟨hfirst, fun hplain => ?_⟩
    rw [← clean_iff]
    rcases h.found with ⟨e, he, -, -, hdst⟩ | ⟨hno, -, hdst⟩
    · have hwalk := walk_plain (hreg e he.mem).1 (hplain e he) path
      rw [lookup_eq hreg, winner_of_best hreg he (hfirst e he).2] at hdst
      simp only [hplain e he, Bool.false_eq_true, if_false, hwalk, nil_append,
        length_nil, Nat.sub_zero] at hdst
      exact hdst
    cases hpick : sm.foldl (pick (chosen method path dst.length)) none with
    | none =>
      rw [lookup_eq hreg, hpick] at hdst
      exact hdst
    | some w =>
      have hw := matches_of_winner hpick
      exact absurd hw.2 (hno w hw.1)
  · rintro ⟨hfirst, hclean⟩
    rw [lookup_eq hreg]
    by_cases hsome : ∃ f ∈ sm, Matches method path f
    · obtain ⟨f, hf, hm⟩ := hsome
      obtain ⟨e, he⟩ := best_exists hreg hf hm
      have hkeys : ∀ key, key ∉ wildcards (e.path.drop 1) →
          ∀ v ∈ (walk e.path path).1, v.key ≠ key := by
        rintro key hkey v hv rfl
        exact hkey ((walk_keys _ _).1.subset (mem_map_of_mem hv))
      rw [winner_of_best hreg he (hfirst e he).2]
      have hdst : (if isWildcardPattern e.path then (walk e.path path).1 ++
            List.replicate (dst.length - (walk e.path path).1.length) .zero
          else (tried method path dst.length none sm).foldl
            (fun d e => overlay d e.path path) dst) = (walk e.path path).1 ++
            List.replicate (dst.length - (walk e.path path).1.length) .zero := by
        cases hwild : isWildcardPattern e.path with
        | true => rfl
        | false =>
        have hwalk := walk_plain (hreg e he.mem).1 hwild path
        have hzero := (clean_iff path dst _).2 (hclean fun e' he' => IsBest.unique he he' ▸ hwild)
        simp only [Bool.false_eq_true, if_false, hwalk, nil_append, length_nil, Nat.sub_zero]
        exact hzero
      simp only [hdst]
      refine ⟨.inl ⟨e, he, rfl, rfl, rfl⟩, ?_, fun key hkey => ?_⟩
      · exact ⟨fun hnil => absurd hnil (hfirst e he).1, fun hno => absurd he.wants (hno e he.mem)⟩
      · exact pathValue_zeros _ _ key (hkeys key hkey)
    · have hno : ∀ f ∈ sm, ¬ Matches method path f := fun f hf hm => hsome ⟨f, hf, hm⟩
      have hzero := (clean_iff path dst _).2
        (hclean fun e he => absurd he.wants (hno e (IsBest.mem he)))
      cases hpick : sm.foldl (pick (chosen method path dst.length)) none with
      | some w =>
        have hw := matches_of_winner hpick
        exact absurd hw.2 (hno w hw.1)
      | none =>
      simp only [hzero]
      exact ⟨.inr ⟨hno, rfl, rfl⟩, ⟨fun _ => hno, fun _ => rfl⟩,
        fun key _ => pathValue_zeros [] dst.length key (by simp)⟩

def literalFirst : List (Bytes × Option ℕ) := [([47, 97], some 1), ([47, 123, 120, 125], some 0)]

def wildcardFirst : List (Bytes × Option ℕ) := [([47, 123, 120, 125], some 0), ([47, 97], some 1)]

theorem lookup_right_iff_literal : ∃ sm, handleAll [] literalFirst = .ok sm ∧
      Right sm .get [47, 97] 1 (lookupHandler sm .get [47, 97] [.zero]) := by
  obtain ⟨sm, hsm⟩ : ∃ sm, handleAll [] literalFirst = .ok sm := ⟨_, rfl⟩
  refine ⟨sm, hsm, (lookup_right_iff literalFirst sm hsm .get [47, 97] [.zero]).2 ?_⟩
  cases hsm
  refine ⟨fun e he => ?_, fun _ k hk => ?_⟩
  · have hmem := IsBest.mem he
    simp only [nil_append, cons_append, mem_cons, not_mem_nil, or_false] at hmem
    rcases hmem with rfl | rfl
    · decide
    · decide
  · obtain rfl : k = 0 := Nat.lt_one_iff.1 hk
    rfl

/-- The value of the beaten wildcard is still there for the literal path. -/
theorem lookup_leaves_value : ∃ sm, handleAll [] wildcardFirst = .ok sm ∧ maxPathValues sm = 1 ∧
      (lookupHandler sm .get [47, 97] [.zero]).pattern = [47, 97] ∧
      [120] ∉ wildcards [97] ∧
      pathValue (lookupHandler sm .get [47, 97] [.zero]).dst [120] = some [97] := by
  refine ⟨_, rfl, ?_⟩
  decide

end Lneto.MuxLookup
