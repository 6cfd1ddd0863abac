import Lneto.DhcpExchange
import Lneto.DhcpReplies
import Lneto.DhcpOffers

/-!
The messages of the server. Whatever it was told since it was configured, an
answer carries its own terms; the timers come out in order as far as a 32-bit
product lets them.
-/
namespace Lneto.DhcpTerms

open AddressCache (Fault)
open Ipv4Prefix DhcpFrame DhcpServer DhcpClient GuardedRuns Server AList
open DhcpExchange (SameConfig getMessageType_reply proper_replyOptions receive_reply
  setmaybe_be32 maybeU32_be32 subnetCIDRBits_informed)
open DhcpOffers (Sound revise)
open DhcpLeases (fromClient smallServer)

variable {sv sv' : Server} {e : Entry} {f : Frame}

theorem sameConfig_trans {sv'' : Server} (h : SameConfig sv sv') (h' : SameConfig sv' sv'') :
    SameConfig sv sv'' :=
  ⟨h'.subnet.trans h.subnet, h'.siaddr.trans h.siaddr, h'.gwaddr.trans h.gwaddr,
    h'.dns.trans h.dns, h'.lease.trans h.lease⟩

theorem sameConfig_dispatch (sv : Server) (choice : Key) (f : Frame) (p : Parsed) :
    SameConfig sv (sv.dispatch choice f p).1 := by
  unfold dispatch
  generalize sv.locate choice f p = found
  obtain ⟨key, found⟩ := found
  have halloc : SameConfig sv (sv.allocAddr p.reqAddr).1 := by
    unfold allocAddr
    split_ifs
    all_goals exact ⟨rfl, rfl, rfl, rfl, rfl⟩
  simp only
  split_ifs
  · unfold onDiscover
    cases found with
    | some client => exact ⟨rfl, rfl, rfl, rfl, rfl⟩
    | none =>
      rcases hnew : sv.allocAddr p.reqAddr with ⟨sv₁, _ | addr⟩
      all_goals
        rw [hnew] at halloc
        exact ⟨halloc.1, halloc.2, halloc.3, halloc.4, halloc.5⟩
  · unfold onRequest
    split
    · exact ⟨rfl, rfl, rfl, rfl, rfl⟩
    split_ifs
    all_goals exact ⟨rfl, rfl, rfl, rfl, rfl⟩
  · unfold onRelease
    split
    all_goals exact ⟨rfl, rfl, rfl, rfl, rfl⟩
  · exact ⟨rfl, rfl, rfl, rfl, rfl⟩

theorem sameConfig_step {op : ServerOp} (h : DhcpServer.step sv op = .ok sv') :
    SameConfig sv sv' := by
  cases op with
  | demux choice buf =>
    cases h
    unfold demux
    split
    · exact ⟨rfl, rfl, rfl, rfl, rfl⟩
    · exact sameConfig_dispatch sv choice _ _
  | encapsulate room carrier choice =>
    obtain ⟨⟨sv₁, r⟩, hsend, rfl⟩ := map_ok h
    rcases encapsulate_cases hsend with ⟨rfl, -⟩ | ⟨key, e, -, -, rfl⟩
    all_goals exact ⟨rfl, rfl, rfl, rfl, rfl⟩

/-- An accepted message makes its client wait for the answer to it. -/
theorem dispatch_waits {choice : Key} {p : Parsed} (h : (sv.dispatch choice f p).2 = none)
    (hreply : p.msgType = msgDiscover ∨ p.msgType = msgRequest) :
    ∃ key e, (sv.dispatch choice f p).1.hosts.lookup key = some e ∧ e.xid = f.xid ∧
      e.state = (if p.msgType = msgDiscover then .init else .requesting) ∧
      (p.msgType = msgDiscover → e.hwaddr = f.chaddr) := by
  unfold dispatch at h ⊢
  generalize sv.locate choice f p = found at h ⊢
  obtain ⟨key, found⟩ := found
  simp only at h ⊢
  refine ⟨key, ?_⟩
  by_cases hdisc : p.msgType = msgDiscover
  · rw [if_pos hdisc] at h ⊢
    unfold onDiscover at h ⊢
    cases found with
    | some client => exact ⟨_, lookup_insert _, rfl, (if_pos hdisc).symm, fun _ => rfl⟩
    | none =>
      rcases hnew : sv.allocAddr p.reqAddr with ⟨sv₁, _ | addr⟩
      · rw [hnew] at h
        cases h
      · exact ⟨_, lookup_insert _, rfl, (if_pos hdisc).symm, fun _ => rfl⟩
  have hreq := hreply.resolve_left hdisc
  rw [if_neg hdisc, if_pos hreq] at h ⊢
  unfold onRequest at h ⊢
  cases found with
  | none => cases h
  | some client =>
  simp only at h ⊢
  split_ifs at h ⊢ with hxid hsel hrequ
  · exact ⟨_, lookup_insert _, (not_not.1 hxid).symm, rfl, fun hd => absurd hd hdisc⟩
  · exact ⟨_, lookup_insert _, (not_not.1 hxid).symm, hrequ, fun hd => absurd hd hdisc⟩

theorem judge_settings (client : Client) (f : Frame) :
    (client.judge f).1.settings = client.settings := by
  unfold Client.judge
  split
  · split_ifs <;> rfl
  · split_ifs <;> rfl
  · rfl

theorem reply_terms (hvalid : sv.subnet.isValid) (hlease : 0 < sv.leaseSeconds) (e : Entry) :
    Sound (sv.reply e) ∧ (revise (sv.reply e) {}).svip = ⟨sv.siaddr, true⟩ ∧
      (revise (sv.reply e) {}).subnet = ⟨UInt32.ofNat (2 ^ 32 - sv.subnet.size), true⟩ ∧
      (revise (sv.reply e) {}).tIPLease = sv.leaseSeconds ∧
      (revise (sv.reply e) {}).tRenew = sv.leaseSeconds / 2 ∧
      (revise (sv.reply e) {}).tRebind = sv.leaseSeconds * 7 / 8 := by
  have hwalk := forEachOption_encodeAll (fun t opt data => (setTerm t opt data, none)) ({} : Terms)
    (@proper_replyOptions sv (answer e))
  unfold Sound revise
  simp only [reply, hwalk]
  rw [replyOptions, if_pos hvalid, if_pos hlease]
  split_ifs
  all_goals exact ⟨rfl, setmaybe_be32 {} _, setmaybe_be32 {} _, maybeU32_be32 _, maybeU32_be32 _,
    maybeU32_be32 _⟩

/-- T1, T2 and the lease as the server computes them are in order. -/
def Ordered (lease : UInt32) : Prop := lease / 2 ≤ lease * 7 / 8 ∧ lease * 7 / 8 ≤ lease

/-- They are while the lease times seven is a 32-bit number. -/
theorem ordered_of_le {lease : UInt32} (h : lease ≤ 613566756) : Ordered lease := by
  have hle : lease.toNat ≤ 613566756 := UInt32.le_iff_toNat_le.1 h
  have hmul : (lease * 7).toNat = lease.toNat * 7 := by
    rw [UInt32.toNat_mul]
    exact Nat.mod_eq_of_lt (by change lease.toNat * 7 < 2 ^ 32; omega)
  simp only [Ordered, UInt32.le_iff_toNat_le, UInt32.toNat_div, hmul]
  change lease.toNat / 2 ≤ lease.toNat * 7 / 8 ∧ lease.toNat * 7 / 8 ≤ lease.toNat
  omega

end Lneto.DhcpTerms
