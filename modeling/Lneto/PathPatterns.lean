import Mathlib.Tactic.Common

/-!
Patterns for request paths. A pattern is walked beside the path, and wildcards
are bound before it is known whether it matches. What a walk binds does not
depend on the room for the values; only its outcome does.
-/
namespace Lneto.PathPatterns

open List Option

variable {n : ℕ}

abbrev Bytes := List UInt8

variable {pattern : Bytes}

/-- The zero value has an empty key and a nil value. -/
structure PathValue where
  key : Bytes := []
  value : Option Bytes := none
deriving DecidableEq, Repr

variable {dst : List PathValue}

def PathValue.zero : PathValue := {}

def slash : UInt8 := 47

def segment : Bytes → Bytes
  | [] => []
  | c :: s => if c = slash then [] else c :: segment s

def rest : Bytes → Bytes
  | [] => []
  | c :: s => if c = slash then s else rest s

def more : Bytes → Bool
  | [] => false
  | c :: s => c == slash || more s

theorem eq_segment (s : Bytes) : s = segment s ++ if more s then slash :: rest s else [] := by
  induction s with
  | nil => rfl
  | cons c s ih =>
  by_cases hc : c = slash
  · simp [segment, rest, more, hc]
  simp only [segment, rest, more, hc, if_false, beq_eq_false_iff_ne.2 hc, Bool.false_or,
    cons_append]
  exact congrArg (c :: ·) ih

/-- The name of a wildcard segment, and whether it takes all that remains. -/
def pathWildcard (seg : Bytes) : Option (Bytes × Bool) :=
  if seg.length < 2 ∨ seg.head? ≠ some 123 ∨ seg.getLast? ≠ some 125 then none
  else
    let name := (seg.drop 1).dropLast
    if [46, 46, 46].isSuffixOf name then some (name.take (name.length - 3), true)
    else some (name, false)

inductive Turn where
  /-- the walk is over -/
  | stop (matched : Bool)
  /-- all that remains matches, and may be bound -/
  | remainder (value : Option PathValue)
  /-- one segment matches, and may be bound -/
  | one (value : Option PathValue)
deriving DecidableEq, Repr

def turn (pattern path : Bytes) : Turn :=
  match pathWildcard (segment pattern) with
  | some (name, isMulti) =>
    if name = [36] then .stop (!more pattern && path.isEmpty)
    else if isMulti then
      .remainder (if name = [] then none else some { key := name, value := some path })
    else if segment path = [] then .stop false
    else .one (some { key := name, value := some (segment path) })
  | none => if segment path = segment pattern then .one none else .stop false

/-- The values, how many of them were bound, and the outcome. -/
structure Bound where
  dst : List PathValue
  n : ℕ
  matched : Bool
  tooShort : Bool
deriving DecidableEq, Repr

def bindNext (dst : List PathValue) (n : ℕ) : Option PathValue → Option (List PathValue × ℕ)
  | none => some (dst, n)
  | some v => if dst.length ≤ n then none else some (dst.set n v, n + 1)

/-- The loop of setPathValues. A pattern loses at least a byte each time round. -/
def setLoop : ℕ → List PathValue → ℕ → Bytes → Bytes → Bound
  | 0, dst, n, _, _ => ⟨dst, n, false, false⟩
  | fuel + 1, dst, n, pattern, path =>
    if pattern = [] then ⟨dst, n, true, false⟩
    else
      match turn pattern path with
      | .stop matched => ⟨dst, n, matched, false⟩
      | .remainder value =>
        match bindNext dst n value with
        | none => ⟨dst, n, false, true⟩
        | some (dst, n) => ⟨dst, n, true, false⟩
      | .one value =>
        match bindNext dst n value with
        | none => ⟨dst, n, false, true⟩
        | some (dst, n) =>
          if more pattern ≠ more path then ⟨dst, n, false, false⟩
          else if more pattern then setLoop fuel dst n (rest pattern) (rest path)
          else ⟨dst, n, true, false⟩

def setPathValuesCount (dst : List PathValue) (pattern path : Bytes) : Bound :=
  if pattern.head? ≠ some slash ∨ path.head? ≠ some slash then ⟨dst, 0, false, false⟩
  else setLoop pattern.length dst 0 (pattern.drop 1) (path.drop 1)

/-- On failure what was bound is cleared. -/
def setPathValues (dst : List PathValue) (pattern path : Bytes) : List PathValue × Bool × Bool :=
  let b := setPathValuesCount dst pattern path
  (if b.matched then b.dst else List.replicate b.n .zero ++ b.dst.drop b.n, b.matched, b.tooShort)

def walkLoop : ℕ → Bytes → Bytes → List PathValue × Bool
  | 0, _, _ => ([], false)
  | fuel + 1, pattern, path =>
    if pattern = [] then ([], true)
    else
      match turn pattern path with
      | .stop matched => ([], matched)
      | .remainder value => (value.toList, true)
      | .one value =>
        if more pattern ≠ more path then (value.toList, false)
        else if more pattern then
          (value.toList ++ (walkLoop fuel (rest pattern) (rest path)).1,
            (walkLoop fuel (rest pattern) (rest path)).2)
        else (value.toList, true)

def walk (pattern path : Bytes) : List PathValue × Bool :=
  if pattern.head? ≠ some slash ∨ path.head? ≠ some slash then ([], false)
  else walkLoop pattern.length (pattern.drop 1) (path.drop 1)

def placed (dst : List PathValue) (n : ℕ) (bound : List PathValue × Bool) : Bound :=
  if n + bound.1.length ≤ dst.length then
    ⟨dst.take n ++ bound.1 ++ dst.drop (n + bound.1.length), n + bound.1.length, bound.2, false⟩
  else ⟨dst.take n ++ bound.1.take (dst.length - n), dst.length, false, true⟩

theorem bindNext_eq (hn : n ≤ dst.length) (value : Option PathValue) :
    bindNext dst n value = if n + value.toList.length ≤ dst.length then
      some (dst.take n ++ value.toList ++ dst.drop (n + value.toList.length),
        n + value.toList.length) else none := by
  cases value with
  | none => simp [bindNext, hn]
  | some v =>
  by_cases hfull : dst.length ≤ n
  · rw [bindNext, if_pos hfull, if_neg (by simp; omega)]
  · rw [bindNext, if_neg hfull, if_pos (by simp; omega)]
    simp [set_eq_take_append_cons_drop, Nat.not_le.1 hfull]

theorem placed_nil (hn : n ≤ dst.length) (matched : Bool) :
    placed dst n ([], matched) = ⟨dst, n, matched, false⟩ := by
  simp [placed, hn]

theorem placed_snoc {vs : List PathValue} (hroom : n + vs.length ≤ dst.length)
    (bound : List PathValue × Bool) :
    placed (dst.take n ++ vs ++ dst.drop (n + vs.length)) (n + vs.length) bound =
      placed dst n (vs ++ bound.1, bound.2) := by
  have hlen : (dst.take n ++ vs ++ dst.drop (n + vs.length)).length = dst.length := by
    simp only [length_append, length_take, length_drop]
    omega
  have hfront : (dst.take n ++ vs).length = n + vs.length := by
    rw [length_append, length_take]
    omega
  have htake : (dst.take n ++ vs ++ dst.drop (n + vs.length)).take (n + vs.length) =
      dst.take n ++ vs := by
    rw [← hfront, take_left]
  have hdrop : ∀ k, (dst.take n ++ vs ++ dst.drop (n + vs.length)).drop (n + vs.length + k) =
      dst.drop (n + vs.length + k) := by
    intro k
    rw [drop_append, drop_eq_nil_of_le (by omega), nil_append, hfront,
      drop_drop, Nat.add_sub_cancel_left]
  unfold placed
  rw [hlen, htake, hdrop]
  by_cases hfit : n + vs.length + bound.1.length ≤ dst.length
  · rw [if_pos hfit, if_pos (by rw [length_append]; omega)]
    simp [Nat.add_assoc]
  rw [if_neg hfit, if_neg (by rw [length_append]; omega), take_append,
    take_of_length_le (show vs.length ≤ dst.length - n by omega), append_assoc,
    Nat.sub_sub]

theorem placed_full (hn : n ≤ dst.length) {value : Option PathValue}
    (hfull : ¬ n + value.toList.length ≤ dst.length) (vs : List PathValue) (matched : Bool) :
    placed dst n (value.toList ++ vs, matched) = ⟨dst, n, false, true⟩ := by
  cases value with
  | none => simp at hfull; omega
  | some v =>
  simp only [toList_some, length_singleton] at hfull
  obtain rfl : n = dst.length := by omega
  unfold placed
  simp

theorem setLoop_eq (fuel : ℕ) : ∀ (dst : List PathValue) (n : ℕ) (pattern path : Bytes),
    n ≤ dst.length →
    setLoop fuel dst n pattern path = placed dst n (walkLoop fuel pattern path) := by
  induction fuel with
  | zero =>
    intro dst n pattern path hn
    exact (placed_nil hn false).symm
  | succ fuel ih =>
  intro dst n pattern path hn
  unfold setLoop walkLoop
  by_cases hempty : pattern = []
  · rw [if_pos hempty, if_pos hempty, placed_nil hn]
  rw [if_neg hempty, if_neg hempty]
  cases turn pattern path with
  | stop matched => exact (placed_nil hn matched).symm
  | remainder value =>
    simp only [bindNext_eq hn]
    by_cases hroom : n + value.toList.length ≤ dst.length
    · simp only [if_pos hroom, placed]
    have hfull := placed_full hn hroom [] true
    rw [append_nil] at hfull
    simp only [if_neg hroom, hfull]
  | one value =>
  simp only [bindNext_eq hn]
  by_cases hroom : n + value.toList.length ≤ dst.length
  · simp only [if_pos hroom]
    by_cases hmore : more pattern ≠ more path
    · simp only [if_pos hmore, placed, if_pos hroom]
    simp only [if_neg hmore]
    cases hlast : more pattern with
    | false => simp only [Bool.false_eq_true, if_false, placed, if_pos hroom]
    | true =>
    simp only [if_true]
    rw [ih _ _ _ _ (by simp only [length_append, length_take, length_drop]; omega),
      placed_snoc hroom]
  simp only [if_neg hroom]
  by_cases hmore : more pattern ≠ more path
  · have hfull := placed_full hn hroom [] false
    rw [append_nil] at hfull
    simp only [if_pos hmore, hfull]
  simp only [if_neg hmore]
  cases hlast : more pattern with
  | false =>
    have hfull := placed_full hn hroom [] true
    rw [append_nil] at hfull
    simp only [Bool.false_eq_true, if_false, hfull]
  | true => simp only [if_true, placed_full hn hroom]

def hits (room : ℕ) (pattern path : Bytes) : Bool :=
  (walk pattern path).2 && decide ((walk pattern path).1.length ≤ room)

theorem setPathValuesCount_eq (dst : List PathValue) (pattern path : Bytes) :
    setPathValuesCount dst pattern path = placed dst 0 (walk pattern path) := by
  unfold setPathValuesCount walk
  by_cases hroot : pattern.head? ≠ some slash ∨ path.head? ≠ some slash
  · rw [if_pos hroot, if_pos hroot, placed_nil (Nat.zero_le _)]
  · rw [if_neg hroot, if_neg hroot, setLoop_eq _ _ _ _ _ (Nat.zero_le _)]

/-- The values of the pattern if it matches with room for them, else zero values as far as
it came. -/
def overlay (dst : List PathValue) (pattern path : Bytes) : List PathValue :=
  let n := min (walk pattern path).1.length dst.length
  (if hits dst.length pattern path then (walk pattern path).1 else List.replicate n .zero) ++
    dst.drop n

theorem setPathValues_eq (dst : List PathValue) (pattern path : Bytes) :
    (setPathValues dst pattern path).1 = overlay dst pattern path ∧
    (setPathValues dst pattern path).2.1 = hits dst.length pattern path := by
  unfold setPathValues overlay hits
  rw [setPathValuesCount_eq]
  unfold placed
  by_cases hroom : (walk pattern path).1.length ≤ dst.length
  · cases (walk pattern path).2 with
    | false | true => simp [hroom]
  · simp [hroom, Nat.le_of_lt (Nat.not_le.1 hroom)]

def segments : Bytes → List Bytes
  | [] => [[]]
  | c :: s =>
    if c = slash then [] :: segments s else (segments s).modifyHead (c :: ·)

theorem segments_eq (s : Bytes) :
    segments s = segment s :: if more s then segments (rest s) else [] := by
  induction s with
  | nil => rfl
  | cons c s ih =>
  by_cases hc : c = slash
  · simp [segments, segment, rest, more, hc]
  · rw [segments, if_neg hc, ih]
    simp [segment, rest, more, hc]

/-- The name under which a segment is bound. The end of the path and an anonymous rest
are not bound. -/
def boundName (seg : Bytes) : Option Bytes :=
  match pathWildcard seg with
  | some (name, isMulti) => if name = [36] ∨ isMulti = true ∧ name = [] then none else some name
  | none => none

def wildcards (pattern : Bytes) : List Bytes := (segments pattern).filterMap boundName

theorem turn_value {path : Bytes} {v : PathValue}
    (h : turn pattern path = .remainder (some v) ∨ turn pattern path = .one (some v)) :
    boundName (segment pattern) = some v.key ∧ v.value ≠ none := by
  unfold turn at h
  unfold boundName
  cases hw : pathWildcard (segment pattern) with
  | none =>
    simp only [hw] at h
    split_ifs at h <;> simp at h
  | some w =>
  obtain ⟨name, isMulti⟩ := w
  simp only [hw] at h
  by_cases hend : name = [36]
  · simp [hend] at h
  rw [if_neg hend] at h
  cases isMulti with
  | true =>
    by_cases hanon : name = []
    · simp [hanon] at h
    simp only [if_true, if_neg hanon, Turn.remainder.injEq, some.injEq, reduceCtorEq, or_false] at h
    subst h
    simp [hend, hanon]
  | false =>
  by_cases hseg : segment path = []
  · simp [hseg] at h
  simp only [Bool.false_eq_true, if_false, if_neg hseg, reduceCtorEq, Turn.one.injEq,
    some.injEq, false_or] at h
  subst h
  simp [hend]

/-- What is bound has a value and stands under names of the pattern, in their order. -/
theorem walkLoop_keys (fuel : ℕ) : ∀ (pattern path : Bytes),
    (walkLoop fuel pattern path).1.map PathValue.key <+ wildcards pattern ∧
      ∀ v ∈ (walkLoop fuel pattern path).1, v.value ≠ none := by
  induction fuel with
  | zero => simp [walkLoop]
  | succ fuel ih =>
  intro pattern path
  have hfirst : ∀ value, turn pattern path = .remainder value ∨ turn pattern path = .one value →
      value.toList.map PathValue.key <+ (boundName (segment pattern)).toList ∧
        ∀ v ∈ value.toList, v.value ≠ none := by
    intro value hturn
    cases value with
    | none => simp
    | some v =>
      obtain ⟨hb, hval⟩ := turn_value hturn
      rw [hb]
      exact ⟨.refl _, by simpa using hval⟩
  have hwild : wildcards pattern = (boundName (segment pattern)).toList ++
      if more pattern then wildcards (rest pattern) else [] := by
    rw [wildcards, segments_eq, filterMap_cons]
    cases boundName (segment pattern) <;> cases more pattern <;> simp [wildcards]
  rw [hwild, walkLoop]
  by_cases hempty : pattern = []
  · rw [if_pos hempty]
    simp
  rw [if_neg hempty]
  cases hturn : turn pattern path with
  | stop matched => simp
  | remainder value =>
    obtain ⟨hkeys, hvals⟩ := hfirst value (.inl hturn)
    exact ⟨hkeys.trans (sublist_append_left _ _), hvals⟩
  | one value =>
  obtain ⟨hkeys, hvals⟩ := hfirst value (.inr hturn)
  obtain ⟨hkeys', hvals'⟩ := ih (rest pattern) (rest path)
  have hfront := fun names => hkeys.trans (sublist_append_left _ names)
  dsimp only
  split_ifs
  · exact ⟨hfront _, hvals⟩
  · exact ⟨hfront _, hvals⟩
  · rw [map_append]
    exact ⟨hkeys.append hkeys', fun v hv => (mem_append.1 hv).elim (hvals v) (hvals' v)⟩
  · exact ⟨hfront _, hvals⟩

theorem walk_keys (pattern path : Bytes) :
    (walk pattern path).1.map PathValue.key <+ wildcards (pattern.drop 1) ∧
      ∀ v ∈ (walk pattern path).1, v.value ≠ none := by
  unfold walk
  split_ifs
  · simp
  · exact walkLoop_keys _ _ _

def isWildcardPattern (pattern : Bytes) : Bool :=
  pattern.contains 123 || pattern.getLast? == some slash

theorem pathWildcard_plain {seg : Bytes} (h : 123 ∉ seg) : pathWildcard seg = none := by
  unfold pathWildcard
  rw [if_pos]
  refine .inr (.inl fun hhead => h ?_)
  exact mem_of_mem_head? (mem_def.2 hhead)

theorem eq_iff_segment (s t : Bytes) :
    s = t ↔ segment s = segment t ∧ more s = more t ∧ rest s = rest t := by
  constructor
  · rintro rfl
    exact ⟨rfl, rfl, rfl⟩
  · rintro ⟨h1, h2, h3⟩
    rw [eq_segment s, eq_segment t, h1, h2, h3]

theorem rest_of_not_more {s : Bytes} (h : more s = false) : rest s = [] := by
  induction s with
  | nil => rfl
  | cons c s ih =>
  rw [more, Bool.or_eq_false_iff, beq_eq_false_iff_ne] at h
  rw [rest, if_neg h.1]
  exact ih h.2

theorem walkLoop_plain (fuel : ℕ) : ∀ (pattern path : Bytes), pattern.length < fuel →
    123 ∉ pattern → pattern ≠ [] → pattern.getLast? ≠ some slash →
    walkLoop fuel pattern path = ([], decide (pattern = path)) := by
  induction fuel with
  | zero =>
    intro pattern path hfuel
    omega
  | succ fuel ih =>
  intro pattern path hfuel hplain hne hlast
  have hpat := eq_segment pattern
  have hseg : 123 ∉ segment pattern := by
    intro hmem
    apply hplain
    rw [hpat]
    exact mem_append_left _ hmem
  have hturn : turn pattern path =
      if segment path = segment pattern then .one none else .stop false := by
    rw [turn, pathWildcard_plain hseg]
  unfold walkLoop
  rw [if_neg hne, hturn]
  have heq := eq_iff_segment pattern path
  by_cases hsame : segment path = segment pattern
  · rw [if_pos hsame]
    by_cases hmore : more pattern = more path
    · cases hm : more path with
      | false =>
        have hr := rest_of_not_more hm
        have hr' := rest_of_not_more (hmore.trans hm)
        simp [heq, hsame, hmore, hm, hr, hr']
      | true =>
      rw [hmore, hm, if_pos rfl] at hpat
      have hlen := congrArg length hpat
      rw [length_append, length_cons] at hlen
      have hrest : rest pattern ≠ [] := by
        intro hnil
        rw [hnil] at hpat
        rw [hpat] at hlast
        simp at hlast
      have hplain' : 123 ∉ rest pattern := by
        intro hmem
        apply hplain
        rw [hpat]
        exact mem_append_right _ (mem_cons_of_mem _ hmem)
      have hlast' : (rest pattern).getLast? ≠ some slash := by
        intro hl
        rw [hpat, getLast?_append, getLast?_cons_of_ne_nil hrest, hl] at hlast
        exact hlast rfl
      have hih := ih (rest pattern) (rest path) (by omega) hplain' hrest hlast'
      simp [hih, heq, hsame, hmore, hm]
    · simp [hmore, heq]
  · rw [if_neg hsame]
    simp [heq, Ne.symm hsame]

/-- A pattern without braces that does not end in a slash matches itself only. -/
theorem walk_plain (hroot : pattern.head? = some slash) (h : isWildcardPattern pattern = false)
    (path : Bytes) : walk pattern path = ([], decide (path = pattern)) := by
  rw [isWildcardPattern, Bool.or_eq_false_iff, beq_eq_false_iff_ne] at h
  obtain ⟨tail, rfl⟩ : ∃ tail, pattern = slash :: tail := by
    cases pattern with
    | nil => cases hroot
    | cons c tail => exact ⟨tail, congrArg (· :: tail) (some.inj hroot)⟩
  have hplain : 123 ∉ tail := by
    intro hmem
    have : (slash :: tail).contains 123 := contains_iff_mem.2 (mem_cons_of_mem _ hmem)
    rw [h.1] at this
    cases this
  have htail : tail ≠ [] := by
    rintro rfl
    exact h.2 rfl
  have hlast : tail.getLast? ≠ some slash := by
    rw [← getLast?_cons_of_ne_nil htail]
    exact h.2
  unfold walk
  by_cases hpath : path.head? = some slash
  · obtain ⟨path, rfl⟩ : ∃ t, path = slash :: t := by
      cases path with
      | nil => cases hpath
      | cons c t => exact ⟨t, congrArg (· :: t) (some.inj hpath)⟩
    simp only [drop_succ_cons, drop_zero]
    rw [walkLoop_plain _ _ _ (by simp) hplain htail hlast]
    simp [eq_comm]
  rw [if_pos (.inr hpath)]
  have hne : path ≠ slash :: tail := by
    rintro rfl
    exact hpath rfl
  simp [hne]

end Lneto.PathPatterns
