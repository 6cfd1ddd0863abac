import Mathlib.Data.UInt
import Mathlib.Tactic.Common

/-!
Names on the wire of a DNS message: chains of labels that end in a null byte and
may continue elsewhere through compression pointers. Sums of offsets are taken
modulo 65536. The walk over the labels always ends, and stays inside the message
when it starts there. It yields the expansion of the name, unless it comes to a pointer to
offset 0.
-/
namespace Lneto.DnsNames

inductive DnsErr where
  | truncatedFrame
  | resTooLong
  | compressedSRV
  | invalidPtr
  | tooManyPtr
  | invalidName
  | reserved
  | resourceLen
deriving DecidableEq, Repr

/-- What stops the program; running out of rounds stands for a loop without end. -/
inductive Fault where
  | sliceBounds
  | outOfRounds
deriving DecidableEq, Repr

inductive Outcome (α : Type) where
  | crash (fault : Fault)
  | fail (off : ℕ) (err : DnsErr)
  | done (off : ℕ) (value : α)
deriving DecidableEq, Repr

def Outcome.andThen {α β : Type} (r : Outcome α) (f : ℕ → α → Outcome β) : Outcome β :=
  match r with
  | .crash fault => .crash fault
  | .fail off err => .fail off err
  | .done off value => f off value

/-- Sums of offsets are 16 bits wide. -/
def u16 (n : ℕ) : ℕ := n % 65536

theorem u16_of_lt {n : ℕ} (h : n < 65536) : u16 n = n := Nat.mod_eq_of_lt h

theorem u16_lt (n : ℕ) : u16 n < 65536 := Nat.mod_lt n (by decide)

/-- Start and end of the next label, and whether start is a pointer into the message. -/
def nextLabel : List UInt8 → Except DnsErr (ℕ × ℕ × Bool)
  | [] => .error .truncatedFrame
  | b :: rest =>
    let c := b.toNat
    if c &&& 0xC0 = 0 then
      if c = 0 then .ok (1, 1, false)
      else if rest.length < c then .error .truncatedFrame
      else if (rest.take c).contains 46 then .error .invalidName
      else .ok (1, 1 + c, false)
    else if c &&& 0xC0 = 0xC0 then
      match rest with
      | [] => .error .truncatedFrame
      | b1 :: _ => .ok ((c ^^^ 0xC0) <<< 8 ||| b1.toNat, 0, true)
    else .error .reserved

theorem nextLabel_inside {data : List UInt8} {start endRel : ℕ} {isPtr : Bool}
    (h : nextLabel data = .ok (start, endRel, isPtr)) : 0 < data.length ∧
    (isPtr = false → start = 1 ∧ 1 ≤ endRel ∧ endRel ≤ data.length ∧ endRel ≤ 256) ∧
    (isPtr → endRel = 0 ∧ 2 ≤ data.length) := by
  cases data with
  | nil => cases h
  | cons b rest =>
  have hb : b.toNat < 256 := b.toNat_lt
  refine ⟨by simp, ?_⟩
  unfold nextLabel at h
  simp only [] at h
  split_ifs at h with h1 h2 h3 h4 h5
  · cases h
    exact ⟨fun _ => ⟨rfl, le_rfl, by simp, by omega⟩, by simp⟩
  · cases h
    refine ⟨fun _ => ⟨rfl, by omega, ?_, by omega⟩, by simp⟩
    simp only [List.length_cons]
    omega
  cases rest with
  | nil => cases h
  | cons b1 more =>
    cases h
    exact ⟨by simp, fun _ => ⟨rfl, by simp⟩⟩

/-- The loop of visitAllLabels; data collects the labels as a name holds them. -/
def visitLoop (msg : List UInt8) (allowCompression : Bool) :
    ℕ → ℕ → ℕ → ℕ → List UInt8 → Outcome (List UInt8)
  | 0, _, _, _, _ => .crash .outOfRounds
  | rounds + 1, off, ptr, newOff, data =>
    if msg.length < off then .crash .sliceBounds
    else
      match nextLabel (msg.drop off) with
      | .error err => .fail off err
      | .ok (start, endRel, isPtr) =>
        if start = endRel then .done (if ptr = 0 then u16 (off + 1) else newOff) data
        else if isPtr then
          if !allowCompression then .fail newOff .compressedSRV
          else
            let newOff := if ptr = 0 then u16 (off + 2) else newOff
            if msg.length ≤ start then .fail newOff .invalidPtr
            else if 10 < ptr + 1 then .fail newOff .tooManyPtr
            else visitLoop msg allowCompression rounds start (ptr + 1) newOff data
        else if u16 (off + endRel) < u16 (off + start) ∨ msg.length < u16 (off + endRel) then
          .crash .sliceBounds
        else
          let label := (msg.drop (u16 (off + start))).take (u16 (off + endRel) - u16 (off + start))
          visitLoop msg allowCompression rounds (u16 (off + endRel)) ptr newOff
            (data ++ UInt8.ofNat label.length :: label)

/-- Rounds that suffice: at most ten jumps, and a full pass over the message after each. -/
def visitRounds (msg : List UInt8) : ℕ := 10 * (msg.length + 1) + msg.length + 1

def visitAllLabels (msg : List UInt8) (off : ℕ) (allowCompression : Bool) :
    Outcome (List UInt8) :=
  if 65535 < msg.length then .fail off .resTooLong
  else visitLoop msg allowCompression (visitRounds msg) off 0 off []

/-- The walk never crashes inside the message, and ends past where it began. -/
def Walks (msg : List UInt8) (first : ℕ) : Outcome (List UInt8) → Prop
  | .crash _ => False
  | .fail _ _ => True
  | .done off _ => first < off ∧ off ≤ msg.length

theorem visitLoop_walks {msg : List UInt8} (hmsg : msg.length ≤ 65535) (allowCompression : Bool)
    {first : ℕ} (rounds : ℕ) : ∀ (off ptr newOff : ℕ) (data : List UInt8),
    off ≤ msg.length → ptr ≤ 10 → (10 - ptr) * (msg.length + 1) + (msg.length - off) < rounds →
    (ptr = 0 → first ≤ off) → (ptr ≠ 0 → first < newOff ∧ newOff ≤ msg.length) →
    Walks msg first (visitLoop msg allowCompression rounds off ptr newOff data) := by
  induction rounds with
  | zero =>
    intro off ptr newOff data _ _ hrounds
    omega
  | succ rounds ih =>
  intro off ptr newOff data hoff hptr hrounds hzero hjumped
  simp only [visitLoop]
  rw [if_neg (by omega)]
  cases hlabel : nextLabel (msg.drop off) with
  | error err => trivial
  | ok label =>
  obtain ⟨start, endRel, isPtr⟩ := label
  obtain ⟨hpos, hplain, hpointer⟩ := nextLabel_inside hlabel
  rw [List.length_drop] at hpos hplain hpointer
  simp only []
  by_cases hsame : start = endRel
  · rw [if_pos hsame]
    by_cases hp : ptr = 0
    · rw [if_pos hp, u16_of_lt (by omega)]
      have := hzero hp
      exact ⟨by omega, by omega⟩
    · rw [if_neg hp]
      exact hjumped hp
  rw [if_neg hsame]
  cases isPtr with
  | true =>
    obtain ⟨-, htwo⟩ := hpointer rfl
    simp only [if_true]
    split
    · trivial
    split
    · trivial
    split
    · trivial
    -- a jump pays with one of its ten for a full pass over the message
    have hroom : (10 - ptr) * (msg.length + 1) =
        (10 - (ptr + 1)) * (msg.length + 1) + (msg.length + 1) := by
      rw [← Nat.succ_mul]
      congr 1
      omega
    refine ih start (ptr + 1) _ data (by omega) (by omega) (by omega) (by omega) (fun _ => ?_)
    by_cases hp : ptr = 0
    · rw [if_pos hp, u16_of_lt (by omega)]
      have := hzero hp
      exact ⟨by omega, by omega⟩
    · rw [if_neg hp]
      exact hjumped hp
  | false =>
  obtain ⟨rfl, hone, hend, -⟩ := hplain rfl
  rw [if_neg (by simp), u16_of_lt (show off + endRel < 65536 by omega),
    u16_of_lt (show off + 1 < 65536 by omega), if_neg (by omega)]
  refine ih (off + endRel) ptr newOff _ (by omega) hptr (by omega) (fun hp => ?_) hjumped
  have := hzero hp
  omega

theorem visitAllLabels_walks (msg : List UInt8) (allowCompression : Bool) {off : ℕ}
    (hoff : off ≤ msg.length) : Walks msg off (visitAllLabels msg off allowCompression) := by
  unfold visitAllLabels
  split_ifs with hlong
  · trivial
  · exact visitLoop_walks (by omega) allowCompression _ off 0 off [] hoff (by omega)
      (by unfold visitRounds; omega) (fun _ => le_rfl) (fun h => absurd rfl h)

/-- A name that is read to its end started inside a message of 16-bit size. -/
theorem visitAllLabels_done {msg data : List UInt8} {allowCompression : Bool} {off e : ℕ}
    (h : visitAllLabels msg off allowCompression = .done e data) :
    off < e ∧ e ≤ msg.length ∧ msg.length ≤ 65535 := by
  have hlong : msg.length ≤ 65535 := by
    by_contra hlong
    rw [visitAllLabels, if_pos (by omega)] at h
    cases h
  have hoff : off ≤ msg.length := by
    by_contra hoff
    rw [visitAllLabels, if_neg (by omega), visitRounds, visitLoop, if_pos (by omega)] at h
    cases h
  have hw := visitAllLabels_walks msg allowCompression hoff
  rw [h] at hw
  exact ⟨hw.1, hw.2, hlong⟩

theorem visitAllLabels_noCrash {msg : List UInt8} {allowCompression : Bool} {off : ℕ}
    (hoff : off ≤ msg.length) (fault : Fault) :
    visitAllLabels msg off allowCompression ≠ .crash fault := by
  intro h
  have hw := visitAllLabels_walks msg allowCompression hoff
  rw [h] at hw
  exact hw

def skipName (msg : List UInt8) (off : ℕ) : Outcome (List UInt8) := visitAllLabels msg off true

def nameDecode (msg : List UInt8) (off : ℕ) : Outcome (List UInt8) :=
  (visitAllLabels msg off true).andThen fun off data => .done off (data ++ [0])

variable (msg : List UInt8)

def byteAt (off : ℕ) : ℕ := (msg.getD off 0).toNat

/-- The 14 bits of a pointer. -/
def target (off : ℕ) : ℕ := (byteAt msg off - 192) * 256 + byteAt msg (off + 1)

/-- The labels of a name by the standard, when so many pointers may be followed, and the
offset after its end or its first pointer. -/
def expand (jumps off : ℕ) : Option (List (List UInt8) × ℕ) :=
  if msg.length ≤ off then none
  else if byteAt msg off = 0 then some ([], off + 1)
  else if byteAt msg off < 64 then
    let label := (msg.drop (off + 1)).take (byteAt msg off)
    if label.length < byteAt msg off ∨ 46 ∈ label then none
    else (expand jumps (off + 1 + byteAt msg off)).map fun (ls, next) => (label :: ls, next)
  else if byteAt msg off < 192 ∨ msg.length ≤ off + 1 ∨ jumps = 0 then none
  else (expand (jumps - 1) (target msg off)).map fun (ls, _) => (ls, off + 2)
termination_by (jumps, msg.length - off)

/-- One label or pointer of a walk, at an offset and with the number of pointers followed. -/
def Leads (s t : ℕ × ℕ) : Prop :=
  byteAt msg s.1 ≠ 0 ∧ byteAt msg s.1 < 64 ∧ s.1 + 1 + byteAt msg s.1 ≤ msg.length ∧
      46 ∉ (msg.drop (s.1 + 1)).take (byteAt msg s.1) ∧ t = (s.1 + 1 + byteAt msg s.1, s.2) ∨
    192 ≤ byteAt msg s.1 ∧ s.1 + 1 < msg.length ∧ target msg s.1 ≠ 0 ∧
      target msg s.1 < msg.length ∧ s.2 < 10 ∧ t = (target msg s.1, s.2 + 1)

/-- A pointer to offset 0 may stand only behind another one, where the name at 0 is empty. -/
def Ends (s : ℕ × ℕ) : Prop :=
  192 ≤ byteAt msg s.1 → s.1 + 1 < msg.length → target msg s.1 = 0 →
    s.2 ≠ 0 ∧ s.2 < 10 ∧ ∃ next, expand msg (10 - s.2 - 1) 0 = some ([], next)

/-- The walk comes to no other pointer to offset 0. -/
def Harmless (s : ℕ × ℕ) : Prop :=
  ∀ t, Relation.ReflTransGen (Leads msg) s t → Ends msg t

def joined (ls : List (List UInt8)) : List UInt8 := ls.flatMap fun l => UInt8.ofNat l.length :: l

variable {msg}

theorem harmless_iff (s : ℕ × ℕ) :
    Harmless msg s ↔ Ends msg s ∧ ∀ t, Leads msg s t → Harmless msg t := by
  constructor
  · intro h
    exact ⟨h s .refl, fun t hlead u hreach => h u (hreach.head hlead)⟩
  · rintro ⟨hends, hnext⟩ t hreach
    rcases hreach.cases_head with rfl | ⟨u, hlead, hrest⟩
    · exact hends
    · exact hnext u hlead t hrest

theorem harmless_leads {s t : ℕ × ℕ} (hends : Ends msg s) (hlead : Leads msg s t)
    (huniq : ∀ u, Leads msg s u → u = t) : Harmless msg s ↔ Harmless msg t := by
  rw [harmless_iff]
  exact ⟨fun h => h.2 t hlead, fun h => ⟨hends, fun u hu => huniq u hu ▸ h⟩⟩

theorem harmless_stuck {s : ℕ × ℕ} (hends : Ends msg s) (hstuck : ∀ t, ¬ Leads msg s t) :
    Harmless msg s :=
  (harmless_iff s).2 ⟨hends, fun t ht => absurd ht (hstuck t)⟩

def Agrees (r : Option (ℕ × List UInt8)) : Outcome (List UInt8) → Prop
  | .crash _ => True
  | .fail _ _ => r = none
  | .done e data => r = some (e, data)

theorem topBits : ∀ c : Fin 256, (c.val &&& 0xC0 = 0 ↔ c.val < 64) ∧
    (c.val &&& 0xC0 = 0xC0 ↔ 192 ≤ c.val) ∧ (192 ≤ c.val → c.val ^^^ 0xC0 = c.val - 192) := by
  decide +kernel

theorem nextLabel_drop {off : ℕ} (hoff : off < msg.length) : nextLabel (msg.drop off) =
      let c := byteAt msg off
      if c = 0 then .ok (1, 1, false)
      else if c < 64 then
        if msg.length - (off + 1) < c then .error .truncatedFrame
        else if 46 ∈ (msg.drop (off + 1)).take c then .error .invalidName
        else .ok (1, 1 + c, false)
      else if c < 192 then .error .reserved
      else if msg.length ≤ off + 1 then .error .truncatedFrame
      else .ok (target msg off, 0, true) := by
  have hbyte : byteAt msg off = msg[off].toNat := by simp [byteAt, hoff]
  obtain ⟨hlow, hhigh, hxor⟩ := topBits ⟨msg[off].toNat, msg[off].toNat_lt⟩
  simp only [← hbyte] at hlow hhigh hxor
  rw [List.drop_eq_getElem_cons hoff]
  simp only [nextLabel, ← hbyte, hlow, hhigh, List.length_drop, List.contains_iff_mem]
  by_cases hzero : byteAt msg off = 0
  · simp [hzero]
  by_cases h64 : byteAt msg off < 64
  · simp [hzero, h64]
  by_cases h192 : byteAt msg off < 192
  · simp [hzero, h64, h192]
  simp only [if_neg hzero, if_neg h64, if_neg h192, if_pos (not_lt.mp h192)]
  by_cases hlast : msg.length ≤ off + 1
  · rw [if_pos hlast, List.drop_of_length_le hlast]
  have hor := Nat.shiftLeft_add_eq_or_of_lt (msg[off + 1]).toNat_lt (byteAt msg off - 192)
  rw [if_neg hlast, List.drop_eq_getElem_cons (by omega)]
  simp only [hxor (not_lt.mp h192)]
  rw [← hor, Nat.shiftLeft_eq, target]
  simp [byteAt, not_le.mp hlast]

theorem joined_eq_nil {ls : List (List UInt8)} : joined ls = [] ↔ ls = [] := by
  cases ls with
  | nil => exact iff_of_true rfl rfl
  | cons l ls => simp [joined]

theorem visitLoop_expand (hmsg : msg.length ≤ 65535) (rounds : ℕ) :
    ∀ (off ptr newOff : ℕ) (data : List UInt8), ptr ≤ 10 →
    (∀ fault, visitLoop msg true rounds off ptr newOff data ≠ .crash fault) →
    (Agrees ((expand msg (10 - ptr) off).map fun (ls, next) =>
      (if ptr = 0 then next else newOff, data ++ joined ls))
      (visitLoop msg true rounds off ptr newOff data) ↔ Harmless msg (off, ptr)) := by
  induction rounds with
  | zero => exact fun _ _ _ _ _ hcrash => absurd rfl (hcrash .outOfRounds)
  | succ rounds ih =>
  intro off ptr newOff data hptr hcrash
  rw [visitLoop] at hcrash ⊢
  rw [expand]
  by_cases hoff : msg.length < off
  · rw [if_pos hoff] at hcrash
    exact absurd rfl (hcrash _)
  rw [if_neg hoff] at hcrash ⊢
  by_cases hend : msg.length ≤ off
  · have hbyte : byteAt msg off = 0 := by simp [byteAt, hend]
    rw [List.drop_of_length_le hend, if_pos hend]
    exact iff_of_true rfl (harmless_stuck (fun h => by simp [hbyte] at h)
      fun t h => by simp [Leads, hbyte] at h)
  rw [nextLabel_drop (by omega)] at hcrash ⊢
  rw [if_neg hend]
  by_cases hzero : byteAt msg off = 0
  · refine iff_of_true ?_ (harmless_stuck (fun h => by simp [hzero] at h)
      fun t h => by simp [Leads, hzero] at h)
    simp [hzero, Agrees, joined, u16_of_lt (show off + 1 < 65536 by omega)]
  by_cases h64 : byteAt msg off < 64
  · have hends : Ends msg (off, ptr) := fun h => absurd h (by simp only; omega)
    have hlabel : ∀ t, Leads msg (off, ptr) t ↔ off + 1 + byteAt msg off ≤ msg.length ∧
        46 ∉ (msg.drop (off + 1)).take (byteAt msg off) ∧ t = (off + 1 + byteAt msg off, ptr) := by
      intro t
      simp only [Leads, ne_eq, hzero, not_false_eq_true, h64, true_and,
        show ¬ 192 ≤ byteAt msg off by omega, false_and, or_false]
    by_cases hlen : msg.length - (off + 1) < byteAt msg off
    · refine iff_of_true ?_ (harmless_stuck hends fun t h => by have := (hlabel t).1 h; omega)
      simp [hzero, h64, hlen, Agrees]
    by_cases hdot : 46 ∈ (msg.drop (off + 1)).take (byteAt msg off)
    · refine iff_of_true ?_ (harmless_stuck hends fun t h => ((hlabel t).1 h).2.1 hdot)
      simp [hzero, h64, hlen, hdot, Agrees]
    have hl : ((msg.drop (off + 1)).take (byteAt msg off)).length = byteAt msg off := by
      simp
      omega
    simp only [if_neg hzero, if_pos h64, if_neg hlen, if_neg hdot, hl, lt_irrefl, false_or,
      u16_of_lt (show off + (1 + byteAt msg off) < 65536 by omega),
      u16_of_lt (show off + 1 < 65536 by omega)] at hcrash ⊢
    rw [if_neg (by omega), if_neg nofun, if_neg (by omega), Nat.add_sub_add_left,
      Nat.add_sub_cancel_left, hl, ← Nat.add_assoc] at hcrash ⊢
    rw [Option.map_map, harmless_leads hends ((hlabel _).2 ⟨by omega, hdot, rfl⟩)
      fun u hu => ((hlabel u).1 hu).2.2, ← ih _ ptr newOff _ hptr hcrash]
    refine iff_of_eq (congrArg (Agrees · _) (congrArg (Option.map · _) ?_))
    funext r
    simp [joined, Nat.min_eq_left (not_lt.mp hlen)]
  by_cases h192 : byteAt msg off < 192
  · refine iff_of_true ?_ (harmless_stuck (fun h => absurd h (by simp only; omega)) fun t h => ?_)
    · simp [hzero, h64, h192, Agrees]
    · rcases h with h | h <;> simp only at h <;> omega
  by_cases hlast : msg.length ≤ off + 1
  · refine iff_of_true ?_ (harmless_stuck (fun _ h => absurd h (by simp only; omega)) fun t h => ?_)
    · simp [hzero, h64, h192, hlast, Agrees]
    · rcases h with h | h <;> simp only at h <;> omega
  have hjump : ∀ t, Leads msg (off, ptr) t ↔ target msg off ≠ 0 ∧ target msg off < msg.length ∧
      ptr < 10 ∧ t = (target msg off, ptr + 1) := by
    intro t
    simp only [Leads, h64, false_and, and_false, false_or, not_lt.mp h192,
      not_le.mp hlast, true_and]
  simp only [if_neg hzero, if_neg h64, h192, hlast, false_or, if_false, if_true,
    Bool.not_true, Bool.false_eq_true, u16_of_lt (show off + 2 < 65536 by omega)] at hcrash ⊢
  by_cases hnull : target msg off = 0
  · -- taken for the end of the name
    have hends : Harmless msg (off, ptr) ↔ Ends msg (off, ptr) := by
      rw [harmless_iff]
      exact and_iff_left fun t h => absurd hnull ((hjump t).1 h).1
    rw [hends, if_pos hnull, hnull]
    simp only [Ends, not_lt.mp h192, not_le.mp hlast, hnull, true_imp_iff, Agrees]
    by_cases hten : 10 - ptr = 0
    · rw [if_pos hten]
      exact iff_of_false nofun fun h => by omega
    rw [if_neg hten]
    by_cases hp : ptr = 0
    · refine iff_of_false (fun h => ?_) fun h => h.1 hp
      simp only [hp, if_true, Option.map_map, Option.map_eq_some_iff] at h
      obtain ⟨r, -, h⟩ := h
      have hoff := congrArg Prod.fst h
      rw [u16_of_lt (show off + 1 < 65536 by omega)] at hoff
      simp at hoff
    cases hexp : expand msg (10 - ptr - 1) 0 with
    | none => simp
    | some r =>
      simp only [Option.map_some, hp, if_false, Option.some.injEq, Prod.mk.injEq, true_and,
        List.append_right_eq_self, joined_eq_nil, ne_eq, not_false_eq_true]
      exact ⟨fun h => ⟨by omega, r.2, Prod.ext h rfl⟩, fun ⟨_, next, h⟩ => congrArg Prod.fst h⟩
  have hends : Ends msg (off, ptr) := fun _ _ h => absurd h hnull
  rw [if_neg hnull] at hcrash ⊢
  by_cases hlen : msg.length ≤ target msg off
  · refine iff_of_true ?_ (harmless_stuck hends fun t h => by have := (hjump t).1 h; omega)
    rw [if_pos hlen, expand, if_pos hlen]
    simp [Agrees]
  by_cases hten : 10 < ptr + 1
  · refine iff_of_true ?_ (harmless_stuck hends fun t h => by have := (hjump t).1 h; omega)
    rw [if_neg hlen, if_pos hten, if_pos (by omega)]
    rfl
  rw [if_neg hlen, if_neg hten] at hcrash ⊢
  rw [if_neg (by omega), Option.map_map, harmless_leads hends
    ((hjump _).2 ⟨hnull, by omega, by omega, rfl⟩) fun u hu => ((hjump u).1 hu).2.2.2]
  exact ih _ (ptr + 1) _ data (by omega) hcrash

/-- visitAllLabels yields the labels of a name's expansion, and fails when it has none, if and
only if the walk comes to no pointer to offset 0 that does not end the name anyway. -/
theorem visitAllLabels_expands (hmsg : msg.length ≤ 65535) {off : ℕ} (hoff : off ≤ msg.length) :
    (∀ ls next, expand msg 10 off = some (ls, next) →
      visitAllLabels msg off true = .done next (joined ls)) ∧
    (expand msg 10 off = none → ∃ last err, visitAllLabels msg off true = .fail last err) ↔
      Harmless msg (off, 0) := by
  have hcrash := @visitAllLabels_noCrash msg true off hoff
  rw [visitAllLabels, if_neg (by omega)] at hcrash ⊢
  rw [← visitLoop_expand hmsg (visitRounds msg) off 0 off [] (by omega) hcrash]
  cases hout : visitLoop msg true (visitRounds msg) off 0 off [] with
  | crash fault => exact absurd hout (hcrash fault)
  | fail last err =>
    rcases expand msg 10 off with _ | ⟨ls, next⟩ <;> simp [Agrees]
  | done e data =>
    rcases expand msg 10 off with _ | ⟨ls, next⟩ <;> simp [Agrees, eq_comm]

def pointing (target : UInt8) : List UInt8 := [1, 97, 0, 192, target]

theorem pointing_reaches {t : ℕ × ℕ} (h : Relation.ReflTransGen (Leads (pointing 2)) (3, 0) t) :
    t = (3, 0) ∨ t = (2, 1) := by
  induction h with
  | refl => exact .inl rfl
  | tail _ hlead ih =>
    rcases ih with rfl | rfl <;> simp [Leads, pointing, target, byteAt] at hlead
    exact .inr hlead

theorem visitAllLabels_expands_pointing : visitAllLabels (pointing 2) 3 true = .done 5 [] := by
  refine ((@visitAllLabels_expands (pointing 2) (by decide) 3 (by decide)).2 fun t h => ?_).1
    [] 5 ?_
  · rcases pointing_reaches h with rfl | rfl <;> simp [Ends, pointing, target, byteAt]
  · simp [expand, pointing, target, byteAt]

/-- A pointer to offset 0 is taken for the end of the name. -/
theorem pointer_to_zero_ends : expand (pointing 0) 10 3 = some ([[97]], 5) ∧
    visitAllLabels (pointing 0) 3 true = .done 4 [] :=
  ⟨by simp [expand, pointing, target, byteAt], by decide⟩

end Lneto.DnsNames
