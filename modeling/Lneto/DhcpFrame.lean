import Lneto.AddressCache
import Lneto.Ipv4Prefix

/-!
DHCPv4 messages: the header at fixed offsets, the walk over the options behind
it, and what the walk finds of options that were encoded.
-/
namespace Lneto.DhcpFrame

open AddressCache (Mac6)
open Ipv4Prefix List

variable {opts : List (UInt8 × Bytes)} {σ : Type}

inductive Err where
  | truncatedFrame
  | invalidField
  | invalidLengthField
  | tooManyOptions
  | poolExhausted
  | demuxFail
  | optionNotFit
  | invalidSubnet
  | serverOutsideSubnet
  | setIPAddrs
  | closed
  | mismatch
  | packetDrop
  | bug
  | shortBuffer
  | invalidConfig
  | eof
deriving DecidableEq, Repr

/-- A state of the exchange; the zero value stands for no exchange. -/
inductive ClientState where
  | zero
  | init
  | selecting
  | requesting
  | bound
  | renewing
  | rebinding
  | initReboot
  | rebooting
deriving DecidableEq, Repr

def opRequest : UInt8 := 1
def opReply : UInt8 := 2

def msgDiscover : UInt8 := 1
def msgOffer : UInt8 := 2
def msgRequest : UInt8 := 3
def msgAck : UInt8 := 5
def msgNack : UInt8 := 6
def msgRelease : UInt8 := 7

def optWordAligned : UInt8 := 0
def optSubnetMask : UInt8 := 1
def optRouter : UInt8 := 3
def optDNSServers : UInt8 := 6
def optHostName : UInt8 := 12
def optBroadcastAddress : UInt8 := 28
def optNTPServersAddresses : UInt8 := 42
def optRequestedIPaddress : UInt8 := 50
def optIPAddressLeaseTime : UInt8 := 51
def optMessageType : UInt8 := 53
def optServerIdentification : UInt8 := 54
def optParameterRequestList : UInt8 := 55
def optMaximumMessageSize : UInt8 := 57
def optRenewTimeValue : UInt8 := 58
def optRebindingTimeValue : UInt8 := 59
def optClientIdentifier : UInt8 := 60
def optEnd : UInt8 := 255

def magicCookie : UInt32 := 0x63825363

/-- The fields of the header that are written or read, and the options. -/
structure Frame where
  op : UInt8 := 0
  xid : UInt32 := 0
  secs : UInt8 := 0
  ciaddr : UInt32 := 0
  yiaddr : UInt32 := 0
  siaddr : UInt32 := 0
  giaddr : UInt32 := 0
  chaddr : Mac6 := {}
  cookie : UInt32 := 0
  options : Bytes := []
deriving DecidableEq, Repr

namespace Frame

def part (buf : Bytes) (i n : ℕ) : Bytes := (buf.drop i).take n

def word (buf : Bytes) (i : ℕ) : UInt32 := addr2bits (part buf i 4)

def ofBytes (buf : Bytes) : Except Err Frame :=
  if buf.length < 240 then .error .truncatedFrame
  else
    .ok { op := buf.getD 0 0
          xid := word buf 4
          secs := buf.getD 9 0
          ciaddr := word buf 12
          yiaddr := word buf 16
          siaddr := word buf 20
          giaddr := word buf 24
          chaddr := .ofBytes (part buf 28 6)
          cookie := word buf 236
          options := buf.drop 240 }

def header (f : Frame) : Bytes :=
  [f.op, 1, 6, 0] ++ be32 f.xid ++ [0, f.secs, 0, 0] ++ be32 f.ciaddr ++ be32 f.yiaddr ++
    be32 f.siaddr ++ be32 f.giaddr ++ f.chaddr.bytes ++ List.replicate 202 0 ++ be32 f.cookie

def bytes (f : Frame) : Bytes := f.header ++ f.options

end Frame

open Lneto.DhcpFrame.Frame

/-- The walk over options: `fn` is told the number and the data of each, and may stop it. -/
def walk {σ : Type} (fn : σ → UInt8 → Bytes → σ × Option Err) :
    ℕ → σ → Bytes → σ × Option Err
  | fuel + 1, s, opt :: len :: rest =>
    if opt = optEnd then (s, none)
    else if opt = optWordAligned then walk fn fuel s (len :: rest)
    else if rest.length < len.toNat then (s, some .invalidLengthField)
    else
      match fn s opt (rest.take len.toNat) with
      | (s, some err) => (s, some err)
      | (s, none) => walk fn fuel s (rest.drop len.toNat)
  | _, s, _ => (s, none)

def forEachOption {σ : Type} (fn : σ → UInt8 → Bytes → σ × Option Err) (s : σ) (options : Bytes) :
    σ × Option Err :=
  if options = [] then (s, some .invalidField) else walk fn options.length s options

def validateSize (options : Bytes) : Option Err :=
  if (forEachOption (fun (_ : Unit) _ _ => ((), none)) () options).2 = none then none
  else some .invalidLengthField

def encodeOption (opt : UInt8) (data : Bytes) : Bytes :=
  opt :: UInt8.ofNat data.length :: data

/-- An option that stands for itself: neither padding nor the end, and with a length byte. -/
def Proper (o : UInt8 × Bytes) : Prop :=
  o.1 ≠ optEnd ∧ o.1 ≠ optWordAligned ∧ o.2.length < 256

instance (o : UInt8 × Bytes) : Decidable (Proper o) := inferInstanceAs (Decidable (_ ∧ _))

theorem proper_of {opt : UInt8} {data : Bytes} (hopt : opt ≠ optEnd ∧ opt ≠ optWordAligned)
    (hlen : data.length < 256) : Proper (opt, data) :=
  ⟨hopt.1, hopt.2, hlen⟩

def visit {σ : Type} (fn : σ → UInt8 → Bytes → σ × Option Err) (s : σ) :
    List (UInt8 × Bytes) → σ × Option Err
  | [] => (s, none)
  | o :: rest =>
    match fn s o.1 o.2 with
    | (s, some err) => (s, some err)
    | (s, none) => visit fn s rest

def encodeAll (opts : List (UInt8 × Bytes)) : Bytes :=
  (opts.flatMap fun o => encodeOption o.1 o.2) ++ [optEnd]

section
variable (fn : σ → UInt8 → Bytes → σ × Option Err)
include fn

theorem walk_encodeAll (opts : List (UInt8 × Bytes)) :
    (∀ o ∈ opts, Proper o) → ∀ (fuel : ℕ) (s : σ),
      (encodeAll opts).length ≤ fuel → walk fn fuel s (encodeAll opts) = visit fn s opts := by
  induction opts with
  | nil =>
    intro _ fuel s _
    cases fuel <;> rfl
  | cons o opts ih =>
  intro hproper fuel s hfuel
  obtain ⟨hend, hpad, hlen⟩ := hproper o mem_cons_self
  have hbytes : encodeAll (o :: opts) =
      o.1 :: UInt8.ofNat o.2.length :: (o.2 ++ encodeAll opts) := by
    simp [encodeAll, encodeOption]
  have hsize : (UInt8.ofNat o.2.length).toNat = o.2.length := by
    rw [UInt8.toNat_ofNat', Nat.mod_eq_of_lt hlen]
  rw [hbytes] at hfuel ⊢
  obtain ⟨fuel, rfl⟩ : ∃ k, fuel = k + 1 := ⟨fuel - 1, by simp at hfuel; omega⟩
  have hshort : ¬(o.2 ++ encodeAll opts).length < o.2.length := by simp
  rw [walk, if_neg hend, if_neg hpad, hsize, if_neg hshort, take_left, drop_left, visit]
  rcases fn s o.1 o.2 with ⟨s', _ | err⟩
  · refine ih (fun o' ho' => hproper o' (mem_cons_of_mem o ho')) fuel s' ?_
    simp at hfuel
    omega
  · rfl

theorem forEachOption_encodeAll (s : σ)
    (hproper : ∀ o ∈ opts, Proper o) : forEachOption fn s (encodeAll opts) = visit fn s opts := by
  rw [forEachOption, if_neg (by simp [encodeAll])]
  exact walk_encodeAll fn opts hproper _ s le_rfl

end

theorem visit_append {fn : σ → UInt8 → Bytes → σ × Option Err} {opts' : List (UInt8 × Bytes)}
    {s s' : σ} (h : visit fn s opts = (s', none)) :
    visit fn s (opts ++ opts') = visit fn s' opts' := by
  induction opts generalizing s with
  | nil =>
    cases h
    rfl
  | cons o opts ih =>
  rw [visit] at h
  rw [cons_append, visit]
  rcases hfn : fn s o.1 o.2 with ⟨t, _ | err⟩
  · rw [hfn] at h
    exact ih h
  · rw [hfn] at h
    cases h

theorem visit_unit (opts : List (UInt8 × Bytes)) :
    visit (fun (_ : Unit) _ _ => ((), (none : Option Err))) () opts = ((), none) := by
  induction opts with
  | nil => rfl
  | cons o opts ih => exact ih

theorem word_of_part {buf : Bytes} {i : ℕ} {v : UInt32} (h : part buf i 4 = be32 v) :
    word buf i = v := by
  rw [word, h, addr2bits_be32]

theorem length_header (f : Frame) : f.header.length = 240 := by
  simp only [header, length_append, length_replicate, length_cons,
    length_nil, length_be32, f.chaddr.six]

theorem part_append {front mid back : Bytes} {n m : ℕ} (hn : front.length = n)
    (hm : mid.length = m) : part (front ++ (mid ++ back)) n m = mid := by
  rw [part, drop_left' hn, take_left' hm]

theorem ofBytes_bytes (f : Frame) : ofBytes f.bytes = .ok f := by
  have hlen : ¬f.bytes.length < 240 := by
    rw [bytes, length_append, length_header]
    omega
  have hcookie : part f.bytes 236 4 = be32 f.cookie := by
    have hfront : ([f.op, 1, 6, 0] ++ be32 f.xid ++ [0, f.secs, 0, 0] ++ be32 f.ciaddr ++
        be32 f.yiaddr ++ be32 f.siaddr ++ be32 f.giaddr ++ f.chaddr.bytes ++
        replicate 202 0).length = 236 := by
      simp only [length_append, length_replicate, length_cons, length_nil,
        length_be32, f.chaddr.six]
    rw [bytes, header, append_assoc]
    exact part_append hfront (length_be32 _)
  have hchaddr : Mac6.ofBytes (part f.bytes 28 6) = f.chaddr := by
    have hpart : part f.bytes 28 6 = f.chaddr.bytes := by
      rw [bytes, header, append_assoc, append_assoc, append_assoc]
      exact part_append rfl f.chaddr.six
    rw [hpart]
    exact AddressCache.Mac6.ofBytes_bytes _
  rw [ofBytes, if_neg hlen, hchaddr, word_of_part hcookie,
    word_of_part (v := f.xid) rfl, word_of_part (v := f.ciaddr) rfl,
    word_of_part (v := f.yiaddr) rfl, word_of_part (v := f.siaddr) rfl,
    word_of_part (v := f.giaddr) rfl, bytes, drop_left' (length_header f)]
  rfl

end Lneto.DhcpFrame
