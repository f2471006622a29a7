/-
# The outbound URL guard

A tenant names the URL of a webhook, and the server must not be made to call itself or its
neighbours. The guard judges addresses, not names: an address literal directly, a host by every
address that it resolves to. `blocked_reason` has one list of ranges for each address family;
an IPv6 address that carries an IPv4 address is unwrapped between them, after `::1` and `::`
have been judged as they stand.

Parsing a URL, parsing an address and resolving a host are parameters.
-/

import EntityResolution.Foundations.AddressBlocks
import EntityResolution.Golden.Survivorship

namespace EntityResolution.Server

open EntityResolution.AddressBlocks EntityResolution.Collections EntityResolution.Golden

/-- `Ipv4Addr`, by its bits. -/
structure Ipv4Addr where
  bits : BitVec 32
  deriving DecidableEq

/-- `Ipv6Addr`, by its bits. -/
structure Ipv6Addr where
  bits : BitVec 128
  deriving DecidableEq

/-- `IpAddr`. -/
inductive IpAddr
  | v4 (addr : Ipv4Addr)
  | v6 (addr : Ipv6Addr)
  deriving DecidableEq

namespace Ipv4Addr

/-- `octets()[i]`. -/
def octet (v4 : Ipv4Addr) (i : ℕ) : BitVec 8 := v4.bits.extractLsb' (8 * (3 - i)) 8

/-- `is_loopback`: 127.0.0.0/8. -/
def isLoopback (v4 : Ipv4Addr) : Bool := v4.octet 0 == 127

/-- `is_link_local`: 169.254.0.0/16. -/
def isLinkLocal (v4 : Ipv4Addr) : Bool := v4.octet 0 == 169 && v4.octet 1 == 254

/-- `is_private`: 10.0.0.0/8, 172.16.0.0/12 and 192.168.0.0/16. -/
def isPrivate (v4 : Ipv4Addr) : Bool :=
  v4.octet 0 == 10 || (v4.octet 0 == 172 && 16 ≤ v4.octet 1 && v4.octet 1 ≤ 31) ||
    (v4.octet 0 == 192 && v4.octet 1 == 168)

/-- `is_unspecified`: 0.0.0.0. -/
def isUnspecified (v4 : Ipv4Addr) : Bool := v4.bits == 0

/-- `is_broadcast`: 255.255.255.255. -/
def isBroadcast (v4 : Ipv4Addr) : Bool := v4.bits == 0xffffffff

/-- `is_multicast`: 224.0.0.0/4. -/
def isMulticast (v4 : Ipv4Addr) : Bool := 224 ≤ v4.octet 0 && v4.octet 0 ≤ 239

end Ipv4Addr

namespace Ipv6Addr

/-- `segments()[i]`. -/
def segment (v6 : Ipv6Addr) (i : ℕ) : BitVec 16 := v6.bits.extractLsb' (16 * (7 - i)) 16

/-- `is_loopback`: ::1. -/
def isLoopback (v6 : Ipv6Addr) : Bool := v6.bits == 1

/-- `is_unspecified`: ::. -/
def isUnspecified (v6 : Ipv6Addr) : Bool := v6.bits == 0

/-- `is_multicast`: ff00::/8. -/
def isMulticast (v6 : Ipv6Addr) : Bool := v6.segment 0 &&& 0xff00 == 0xff00

/-- The six segments before the last two. -/
def lead (v6 : Ipv6Addr) : BitVec 96 := v6.bits.extractLsb' 32 96

/-- The last two segments, as an IPv4 address. -/
def carried (v6 : Ipv6Addr) : Ipv4Addr := ⟨v6.bits.extractLsb' 0 32⟩

/-- `to_ipv4_mapped`: the address of ::ffff:a.b.c.d. -/
def toIpv4Mapped (v6 : Ipv6Addr) : Option Ipv4Addr :=
  if v6.lead = 0xffff then some v6.carried else none

/-- `to_ipv4`: the address of ::a.b.c.d or ::ffff:a.b.c.d. -/
def toIpv4 (v6 : Ipv6Addr) : Option Ipv4Addr :=
  if v6.lead = 0 ∨ v6.lead = 0xffff then some v6.carried else none

end Ipv6Addr

/-- What is judged before an address is unwrapped. -/
def earlyReason : IpAddr → Option String
  | .v6 v6 =>
      if v6.isLoopback then some "a loopback address"
      else if v6.isUnspecified then some "the unspecified address"
      else none
  | .v4 _ => none

/-- The address to judge: an IPv4 address in place of an IPv6 address that carries it. -/
def unwrapped : IpAddr → IpAddr
  | .v6 v6 =>
      match v6.toIpv4Mapped.or v6.toIpv4 with
      | some v4 => .v4 v4
      | none => .v6 v6
  | .v4 v4 => .v4 v4

/-- The ranges of each address family. -/
def rangeReason : IpAddr → Option String
  | .v4 v4 =>
      if v4.isLoopback then some "a loopback address"
      else if v4.isLinkLocal then some "a link-local address"
      else if v4.isPrivate then some "a private address"
      else if v4.isUnspecified then some "the unspecified address"
      else if v4.isBroadcast || v4.isMulticast then some "a broadcast or multicast address"
      else if v4.octet 0 == 100 && (64 ≤ v4.octet 1 && v4.octet 1 < 128) then
        some "a carrier-grade NAT address"
      else none
  | .v6 v6 =>
      if v6.isLoopback then some "a loopback address"
      else if v6.isUnspecified then some "the unspecified address"
      else if v6.isMulticast then some "a multicast address"
      else if v6.segment 0 &&& 0xffc0 == 0xfe80 then some "a link-local address"
      else if v6.segment 0 &&& 0xfe00 == 0xfc00 then some "a unique-local address"
      else none

/-- `blocked_reason`: why an address may not be a destination. -/
def blockedReason (addr : IpAddr) : Option String :=
  (earlyReason addr).or (rangeReason (unwrapped addr))

/-- `Egress`. -/
inductive Egress
  | guarded
  | unguarded
  deriving DecidableEq

/-- `UrlRejection`. -/
inductive UrlRejection
  | unparseable
  | scheme (scheme : String)
  | credentials
  | noHost
  | blockedAddress (host : String) (addr : IpAddr) (reason : String)
  deriving DecidableEq

/-- The text of a rejection, given the quoted form of a text and the text of an address. -/
def UrlRejection.message (quoted : String → String) (display : IpAddr → String) :
    UrlRejection → String
  | .unparseable => "url is not a valid absolute URL"
  | .scheme found => "url scheme must be https, not " ++ quoted found
  | .credentials => "url must not embed credentials"
  | .noHost => "url has no host"
  | .blockedAddress host addr reason =>
      "host " ++ quoted host ++ " resolves to " ++ display addr ++ ", which is " ++ reason

/-- What the guard reads of a parsed URL. -/
structure Url where
  scheme : String
  username : String
  password : Option String
  hostStr : Option String
  portOrKnownDefault : Option ℕ
  deriving DecidableEq

/-- The calls that leave this code: `Url::parse`, the parser of addresses, and the resolver,
whose lookup may fail. -/
structure Network where
  parseUrl : String → Option Url
  parseAddr : String → Option IpAddr
  lookupHost : String → ℕ → Option (List IpAddr)

/-- `check_static`: what can be judged without a lookup. -/
def checkStatic (net : Network) (url : String) : Except UrlRejection Url :=
  match net.parseUrl (trim url) with
  | none => .error .unparseable
  | some parsed =>
      if parsed.scheme ≠ "https" then .error (.scheme parsed.scheme)
      else if parsed.username ≠ "" ∨ parsed.password.isSome then .error .credentials
      else
        match parsed.hostStr with
        | none | some "" => .error .noHost
        | some _ => .ok parsed

/-- The host without the brackets of an IPv6 literal. -/
def bareHost (parsed : Url) : String :=
  String.ofList (((parsed.hostStr.getD "").toList.dropWhile (· = '[')).rdropWhile (· = ']'))

/-- The loop over the addresses of a host. -/
def refuseBlocked (host : String) : List IpAddr → Except UrlRejection Unit
  | [] => .ok ()
  | addr :: addrs =>
      match blockedReason addr with
      | some reason => .error (.blockedAddress host addr reason)
      | none => refuseBlocked host addrs

/-- `check`: the static check, then every address of the host. -/
def check (net : Network) (url : String) (egress : Egress) : Except UrlRejection Unit :=
  match egress with
  | .unguarded => .ok ()
  | .guarded => do
      let parsed ← checkStatic net url
      let host := bareHost parsed
      match net.parseAddr host with
      | some addr =>
          match blockedReason addr with
          | some reason => .error (.blockedAddress host addr reason)
          | none => .ok ()
      | none =>
          match net.lookupHost host (parsed.portOrKnownDefault.getD 443) with
          | none => .ok ()
          | some addrs => refuseBlocked host addrs

/-- The addresses of a URL: the literal, or what the host resolves to. -/
def destinations (net : Network) (parsed : Url) : List IpAddr :=
  match net.parseAddr (bareHost parsed) with
  | some addr => [addr]
  | none =>
      (net.lookupHost (bareHost parsed) (parsed.portOrKnownDefault.getD 443)).getD []

theorem refuseBlocked_eq_ok_iff {host : String} {addrs : List IpAddr} :
    refuseBlocked host addrs = .ok () ↔ ∀ addr ∈ addrs, blockedReason addr = none := by
  induction addrs with
  | nil => simp [refuseBlocked]
  | cons addr addrs ih =>
      rw [refuseBlocked, List.forall_mem_cons]
      cases hreason : blockedReason addr with
      | some reason => simp
      | none => simp [ih]

/-- A literal is judged like a host that resolves to it. -/
theorem check_guarded (net : Network) (url : String) :
    check net url .guarded = (do
      let parsed ← checkStatic net url
      refuseBlocked (bareHost parsed) (destinations net parsed)) := by
  rw [check]
  cases checkStatic net url with
  | error rejection => rfl
  | ok parsed =>
      simp only [bind, Except.bind, destinations]
      cases net.parseAddr (bareHost parsed) with
      | some addr => rfl
      | none => cases net.lookupHost (bareHost parsed) (parsed.portOrKnownDefault.getD 443) <;> rfl

theorem check_eq_ok_iff {net : Network} {url : String} :
    check net url .guarded = .ok () ↔ ∃ parsed, checkStatic net url = .ok parsed ∧
      ∀ addr ∈ destinations net parsed, blockedReason addr = none := by
  simp only [check_guarded, bind_eq_ok_iff, refuseBlocked_eq_ok_iff]

/-- The IPv6 forms that carry an IPv4 address to an IPv4 destination; 6to4 leaves the rest of the
address free. -/
inductive Wrapping
  | mapped
  | compatible
  | nat64
  | sixToFour (rest : BitVec 80)
  deriving DecidableEq

/-- `::ffff:v4`, `::v4`, `64:ff9b::v4` and `2002:v4::`. -/
def Wrapping.wrap (v4 : Ipv4Addr) : Wrapping → Ipv6Addr
  | .mapped => ⟨(0xffff : BitVec 96) ++ v4.bits⟩
  | .compatible => ⟨(0 : BitVec 96) ++ v4.bits⟩
  | .nat64 => ⟨(0x0064 : BitVec 16) ++ (0xff9b : BitVec 16) ++ (0 : BitVec 64) ++ v4.bits⟩
  | .sixToFour rest => ⟨(0x2002 : BitVec 16) ++ v4.bits ++ rest⟩

theorem lead_append (lead : BitVec 96) (v4 : Ipv4Addr) :
    (Ipv6Addr.mk (lead ++ v4.bits)).lead = lead ∧ (Ipv6Addr.mk (lead ++ v4.bits)).carried = v4 := by
  constructor
  · exact BitVec.extractLsb'_append_eq_left
  · rw [Ipv6Addr.carried, BitVec.extractLsb'_append_eq_right]

theorem early_of_lead_ne {v6 : Ipv6Addr} (hlead : v6.lead ≠ 0) :
    v6.isLoopback = false ∧ v6.isUnspecified = false := by
  obtain ⟨bits⟩ := v6
  constructor
  · rw [Ipv6Addr.isLoopback, beq_eq_false_iff_ne]
    rintro rfl
    exact hlead (by decide)
  · rw [Ipv6Addr.isUnspecified, beq_eq_false_iff_ne]
    rintro rfl
    exact hlead (by decide)

theorem blockedReason_of_lead_ne {v6 : Ipv6Addr} (hlead : v6.lead ≠ 0) :
    blockedReason (.v6 v6) = rangeReason (unwrapped (.v6 v6)) := by
  obtain ⟨hloopback, hunspecified⟩ := early_of_lead_ne hlead
  rw [blockedReason, earlyReason, hloopback, hunspecified]
  rfl

theorem blockedReason_v4 (v4 : Ipv4Addr) : blockedReason (.v4 v4) = rangeReason (.v4 v4) := rfl

theorem unwrapped_v6 (v6 : Ipv6Addr) :
    unwrapped (.v6 v6) =
      if v6.lead = 0 ∨ v6.lead = 0xffff then .v4 v6.carried else .v6 v6 := by
  rw [unwrapped, Ipv6Addr.toIpv4Mapped, Ipv6Addr.toIpv4]
  by_cases hcarries : v6.lead = 0 ∨ v6.lead = 0xffff
  · rw [if_pos hcarries, if_pos hcarries]
    by_cases hmapped : v6.lead = 0xffff
    · rw [if_pos hmapped]
      rfl
    · rw [if_neg hmapped]
      rfl
  · rw [if_neg hcarries, if_neg hcarries, if_neg (not_or.mp hcarries).2]
    rfl

/-- A mapped address is judged as the address that it carries. -/
theorem blockedReason_mapped (v4 : Ipv4Addr) :
    blockedReason (.v6 (Wrapping.mapped.wrap v4)) = blockedReason (.v4 v4) := by
  obtain ⟨hlead, hcarried⟩ := lead_append 0xffff v4
  have hne : (Wrapping.mapped.wrap v4).lead ≠ 0 := by
    rw [Wrapping.wrap, hlead]
    decide
  rw [blockedReason_of_lead_ne hne, blockedReason_v4, unwrapped_v6, if_pos (.inr hlead),
    Wrapping.wrap, hcarried]

/-- A compatible address is judged as the address that it carries, `::1` apart. -/
theorem blockedReason_compatible (v4 : Ipv4Addr) :
    blockedReason (.v6 (Wrapping.compatible.wrap v4)) =
      if v4.bits = 1 then some "a loopback address" else blockedReason (.v4 v4) := by
  obtain ⟨hlead, hcarried⟩ := lead_append 0 v4
  have hunwrapped : unwrapped (.v6 (Wrapping.compatible.wrap v4)) = .v4 v4 := by
    rw [unwrapped_v6, if_pos (.inl hlead), Wrapping.wrap, hcarried]
  have hbits (bits : BitVec 32) :
      (Wrapping.compatible.wrap v4).bits = (0 : BitVec 96) ++ bits ↔ v4.bits = bits := by
    rw [Wrapping.wrap]
    constructor
    · intro hsame
      have hlow := congrArg (BitVec.extractLsb' 0 32) hsame
      rwa [BitVec.extractLsb'_append_eq_right, BitVec.extractLsb'_append_eq_right] at hlow
    · intro hsame
      rw [hsame]
  have hone : (Wrapping.compatible.wrap v4).isLoopback = true ↔ v4.bits = 1 := by
    rw [Ipv6Addr.isLoopback, beq_iff_eq, ← hbits 1]
    rfl
  have hzero : (Wrapping.compatible.wrap v4).isUnspecified = true ↔ v4.bits = 0 := by
    rw [Ipv6Addr.isUnspecified, beq_iff_eq, ← hbits 0]
    rfl
  rw [blockedReason, earlyReason, hunwrapped]
  by_cases hloopback : v4.bits = 1
  · rw [if_pos (hone.mpr hloopback), if_pos hloopback]
    rfl
  · rw [if_neg (hone.not.mpr hloopback), if_neg hloopback]
    by_cases hunspecified : v4.bits = 0
    · -- 0.0.0.0 and `::` are refused with one reason
      rw [if_pos (hzero.mpr hunspecified), blockedReason_v4]
      obtain ⟨bits⟩ := v4
      obtain rfl : bits = 0 := hunspecified
      rfl
    · rw [if_neg (hzero.not.mpr hunspecified), blockedReason_v4]
      rfl

theorem blockedReason_of_segment_ne {v6 : Ipv6Addr} (hsegment : v6.segment 0 ≠ 0) :
    blockedReason (.v6 v6) =
      if v6.isMulticast then some "a multicast address"
      else if v6.segment 0 &&& 0xffc0 == 0xfe80 then some "a link-local address"
      else if v6.segment 0 &&& 0xfe00 == 0xfc00 then some "a unique-local address"
      else none := by
  have hlead : v6.lead.toNat = v6.bits.toNat / 2 ^ 32 % 2 ^ 96 := toNat_field _ _ _
  have hfirst : (v6.segment 0).toNat = v6.bits.toNat / 2 ^ 112 % 2 ^ 16 := toNat_field _ _ _
  have hpositive : (v6.segment 0).toNat ≠ 0 := by
    intro hzero
    exact hsegment (BitVec.toNat_inj.mp hzero)
  have hlarge : 2 ^ 80 ≤ v6.lead.toNat := by
    have hbits := v6.bits.isLt
    omega
  have hne : v6.lead ≠ 0 := by
    intro hzero
    rw [hzero] at hlarge
    exact absurd hlarge (by decide)
  have hne' : v6.lead ≠ 0xffff := by
    intro hmapped
    rw [hmapped] at hlarge
    exact absurd hlarge (by decide)
  obtain ⟨hloopback, hunspecified⟩ := early_of_lead_ne hne
  rw [blockedReason_of_lead_ne hne, unwrapped_v6, if_neg (not_or.mpr ⟨hne, hne'⟩), rangeReason,
    hloopback, hunspecified]
  rfl

theorem segment_nat64 (v4 : Ipv4Addr) : (Wrapping.nat64.wrap v4).segment 0 = 0x0064 := by
  have hbits := v4.bits.isLt
  have hfirst : (0x0064 : BitVec 16).toNat = 0x0064 := rfl
  have hsecond : (0xff9b : BitVec 16).toNat = 0xff9b := rfl
  have hzeros : (0 : BitVec 64).toNat = 0 := rfl
  rw [← BitVec.toNat_inj, Ipv6Addr.segment, toNat_field, Wrapping.wrap, toNat_append_eq,
    toNat_append_eq, toNat_append_eq, hfirst, hsecond, hzeros]
  omega

theorem segment_sixToFour (v4 : Ipv4Addr) (rest : BitVec 80) :
    ((Wrapping.sixToFour rest).wrap v4).segment 0 = 0x2002 := by
  have hbits := v4.bits.isLt
  have hrest := rest.isLt
  have hfirst : (0x2002 : BitVec 16).toNat = 0x2002 := rfl
  rw [← BitVec.toNat_inj, Ipv6Addr.segment, toNat_field, Wrapping.wrap, toNat_append_eq,
    toNat_append_eq, hfirst]
  omega

/-- The forms of translators and tunnels pass, whatever address they carry. -/
theorem blockedReason_nat64 (v4 : Ipv4Addr) :
    blockedReason (.v6 (Wrapping.nat64.wrap v4)) = none := by
  have hsegment := segment_nat64 v4
  rw [blockedReason_of_segment_ne (by rw [hsegment]; decide), Ipv6Addr.isMulticast, hsegment]
  decide

theorem blockedReason_sixToFour (v4 : Ipv4Addr) (rest : BitVec 80) :
    blockedReason (.v6 ((Wrapping.sixToFour rest).wrap v4)) = none := by
  have hsegment := segment_sixToFour v4 rest
  rw [blockedReason_of_segment_ne (by rw [hsegment]; decide), Ipv6Addr.isMulticast, hsegment]
  decide

/-! ## The guard as a list of blocks -/

/-- The IPv4 addresses that are no destination. -/
def rejected4 : List (Block 32) :=
  [⟨0x7f000000, 8, by decide⟩, ⟨0xa9fe0000, 16, by decide⟩, ⟨0x0a000000, 8, by decide⟩,
    ⟨0xac100000, 12, by decide⟩, ⟨0xc0a80000, 16, by decide⟩, ⟨0, 32, by decide⟩,
    ⟨0xffffffff, 32, by decide⟩, ⟨0xe0000000, 4, by decide⟩, ⟨0x64400000, 10, by decide⟩]

theorem mem_rejected4_iff (v4 : Ipv4Addr) :
    (∃ block ∈ rejected4, block.Contains v4.bits) ↔
      v4.bits.toNat / 2 ^ 24 = 127 ∨ v4.bits.toNat / 2 ^ 16 = 0xa9fe ∨
      v4.bits.toNat / 2 ^ 24 = 10 ∨ v4.bits.toNat / 2 ^ 20 = 0xac1 ∨
      v4.bits.toNat / 2 ^ 16 = 0xc0a8 ∨ v4.bits.toNat = 0 ∨ v4.bits.toNat = 0xffffffff ∨
      v4.bits.toNat / 2 ^ 28 = 0xe ∨ v4.bits.toNat / 2 ^ 22 = 0x191 := by
  simp [rejected4, Block.contains_iff]

theorem ite_some_ne_none_iff {condition : Prop} [Decidable condition] {reason : String}
    {rest : Option String} :
    (if condition then some reason else rest) ≠ none ↔ condition ∨ rest ≠ none := by
  split
  · next hcondition => exact iff_of_true (Option.some_ne_none _) (.inl hcondition)
  · next hcondition => exact (or_iff_right hcondition).symm

theorem blockedReason_v4_ne_none_iff (v4 : Ipv4Addr) :
    blockedReason (.v4 v4) ≠ none ↔ v4.isLoopback = true ∨ v4.isLinkLocal = true ∨
      v4.isPrivate = true ∨ v4.isUnspecified = true ∨
      (v4.isBroadcast || v4.isMulticast) = true ∨
      (v4.octet 0 == 100 && (64 ≤ v4.octet 1 && v4.octet 1 < 128)) = true := by
  rw [blockedReason_v4, rangeReason]
  simp only [ite_some_ne_none_iff, ne_eq, not_true_eq_false, or_false]

theorem blockedReason_v4_iff (v4 : Ipv4Addr) :
    blockedReason (.v4 v4) ≠ none ↔ ∃ block ∈ rejected4, block.Contains v4.bits := by
  have hbits := v4.bits.isLt
  have hfirst : (v4.octet 0).toNat = v4.bits.toNat / 2 ^ 24 % 2 ^ 8 := toNat_field _ _ _
  have hsecond : (v4.octet 1).toNat = v4.bits.toNat / 2 ^ 16 % 2 ^ 8 := toNat_field _ _ _
  have hloopback : v4.isLoopback = true ↔ v4.bits.toNat / 2 ^ 24 = 127 := by
    rw [Ipv4Addr.isLoopback, beq_iff_eq, ← BitVec.toNat_inj, hfirst]
    change _ = 127 ↔ _
    omega
  have hlinkLocal : v4.isLinkLocal = true ↔ v4.bits.toNat / 2 ^ 16 = 0xa9fe := by
    rw [Ipv4Addr.isLinkLocal, Bool.and_eq_true, beq_iff_eq, beq_iff_eq, ← BitVec.toNat_inj,
      ← BitVec.toNat_inj, hfirst, hsecond]
    change _ = 169 ∧ _ = 254 ↔ _
    omega
  have hprivate : v4.isPrivate = true ↔ v4.bits.toNat / 2 ^ 24 = 10 ∨
      v4.bits.toNat / 2 ^ 20 = 0xac1 ∨ v4.bits.toNat / 2 ^ 16 = 0xc0a8 := by
    simp only [Ipv4Addr.isPrivate, Bool.or_eq_true, Bool.and_eq_true, beq_iff_eq,
      decide_eq_true_iff, ← BitVec.toNat_inj, BitVec.le_def, hfirst, hsecond]
    change (_ = 10 ∨ (_ = 172 ∧ 16 ≤ _) ∧ _ ≤ 31) ∨ _ = 192 ∧ _ = 168 ↔ _
    omega
  have hunspecified : v4.isUnspecified = true ↔ v4.bits.toNat = 0 := by
    rw [Ipv4Addr.isUnspecified, beq_iff_eq, ← BitVec.toNat_inj]
    rfl
  have hbroadcast : (v4.isBroadcast || v4.isMulticast) = true ↔
      v4.bits.toNat = 0xffffffff ∨ v4.bits.toNat / 2 ^ 28 = 0xe := by
    simp only [Ipv4Addr.isBroadcast, Ipv4Addr.isMulticast, Bool.or_eq_true, Bool.and_eq_true,
      beq_iff_eq, decide_eq_true_iff, ← BitVec.toNat_inj, BitVec.le_def, hfirst]
    change _ = 0xffffffff ∨ 224 ≤ _ ∧ _ ≤ 239 ↔ _
    omega
  have hcarrier : (v4.octet 0 == 100 && (64 ≤ v4.octet 1 && v4.octet 1 < 128)) = true ↔
      v4.bits.toNat / 2 ^ 22 = 0x191 := by
    simp only [Bool.and_eq_true, beq_iff_eq, decide_eq_true_iff, ← BitVec.toNat_inj,
      BitVec.le_def, BitVec.lt_def, hfirst, hsecond]
    change _ = 100 ∧ 64 ≤ _ ∧ _ < 128 ↔ _
    omega
  rw [blockedReason_v4_ne_none_iff, mem_rejected4_iff, hloopback, hlinkLocal, hprivate,
    hunspecified, hbroadcast, hcarrier]
  simp only [or_assoc]

/-- The IPv6 blocks that are judged as such. -/
def rejectedOwn6 : List (Block 128) :=
  [⟨1, 128, by decide⟩, ⟨0, 128, by decide⟩,
    ⟨0xff000000000000000000000000000000, 8, by decide⟩,
    ⟨0xfe800000000000000000000000000000, 10, by decide⟩,
    ⟨0xfc000000000000000000000000000000, 7, by decide⟩]

/-- The IPv6 addresses that are no destination: those of the family's own blocks, and those that
carry an IPv4 address that is none. -/
def rejected6 : List (Block 128) :=
  rejectedOwn6 ++ rejected4.map (Block.under (0xffff : BitVec 96)) ++
    rejected4.map (Block.under (0 : BitVec 96))

theorem mem_rejectedOwn6_iff (v6 : Ipv6Addr) :
    (∃ block ∈ rejectedOwn6, block.Contains v6.bits) ↔
      v6.bits.toNat = 1 ∨ v6.bits.toNat = 0 ∨ v6.bits.toNat / 2 ^ 120 = 0xff ∨
        v6.bits.toNat / 2 ^ 118 = 0x3fa ∨ v6.bits.toNat / 2 ^ 121 = 0x7e := by
  simp [rejectedOwn6, Block.contains_iff]

theorem bits_eq_append (v6 : Ipv6Addr) : v6.bits = v6.lead ++ v6.carried.bits :=
  (append_extractLsb'_eq (v := 96) (w := 32) v6.bits).symm

theorem mem_under_iff (lead : BitVec 96) (v6 : Ipv6Addr) :
    (∃ block ∈ rejected4.map (Block.under lead), block.Contains v6.bits) ↔
      v6.lead = lead ∧ ∃ block ∈ rejected4, block.Contains v6.carried.bits := by
  rw [bits_eq_append]
  simp only [List.mem_map, exists_exists_and_eq_and, Block.contains_under]
  constructor
  · rintro ⟨block, hblock, hlead, hrest⟩
    exact ⟨hlead, block, hblock, hrest⟩
  · rintro ⟨hlead, block, hblock, hrest⟩
    exact ⟨block, hblock, hlead, hrest⟩

theorem mem_rejected6_iff (v6 : Ipv6Addr) :
    (∃ block ∈ rejected6, block.Contains v6.bits) ↔
      (∃ block ∈ rejectedOwn6, block.Contains v6.bits) ∨
        (v6.lead = 0xffff ∨ v6.lead = 0) ∧ ∃ block ∈ rejected4, block.Contains v6.carried.bits := by
  simp only [rejected6, List.mem_append, or_and_right, exists_or, mem_under_iff, or_assoc]

theorem rangeReason_v6_ne_none_iff (v6 : Ipv6Addr) :
    rangeReason (.v6 v6) ≠ none ↔ ∃ block ∈ rejectedOwn6, block.Contains v6.bits := by
  have hbits := v6.bits.isLt
  have hsegment : (v6.segment 0).toNat = v6.bits.toNat / 2 ^ 112 % 2 ^ 16 := toNat_field _ _ _
  have hmulticast : v6.isMulticast = true ↔ (v6.segment 0).toNat / 2 ^ 8 = 0xff := by
    have haligned : 2 ^ 8 ∣ (0xff00 : BitVec 16).toNat := by decide
    rw [Ipv6Addr.isMulticast, beq_iff_eq]
    exact and_mask_eq_iff haligned
  have hlocal : (v6.segment 0 &&& 0xffc0 == 0xfe80) = true ↔
      (v6.segment 0).toNat / 2 ^ 6 = 0x3fa := by
    have haligned : 2 ^ 6 ∣ (0xfe80 : BitVec 16).toNat := by decide
    rw [beq_iff_eq]
    exact and_mask_eq_iff haligned
  have hunique : (v6.segment 0 &&& 0xfe00 == 0xfc00) = true ↔
      (v6.segment 0).toNat / 2 ^ 9 = 0x7e := by
    have haligned : 2 ^ 9 ∣ (0xfc00 : BitVec 16).toNat := by decide
    rw [beq_iff_eq]
    exact and_mask_eq_iff haligned
  have hloopback : v6.isLoopback = true ↔ v6.bits.toNat = 1 := by
    rw [Ipv6Addr.isLoopback, beq_iff_eq, ← BitVec.toNat_inj]
    rfl
  have hunspecified : v6.isUnspecified = true ↔ v6.bits.toNat = 0 := by
    rw [Ipv6Addr.isUnspecified, beq_iff_eq, ← BitVec.toNat_inj]
    rfl
  have hcases : rangeReason (.v6 v6) ≠ none ↔ v6.isLoopback = true ∨ v6.isUnspecified = true ∨
      v6.isMulticast = true ∨ (v6.segment 0 &&& 0xffc0 == 0xfe80) = true ∨
      (v6.segment 0 &&& 0xfe00 == 0xfc00) = true := by
    rw [rangeReason]
    simp only [ite_some_ne_none_iff, ne_eq, not_true_eq_false, or_false]
  rw [hcases, mem_rejectedOwn6_iff, hloopback, hunspecified, hmulticast, hlocal, hunique]
  omega

/-- The guard of IPv6 is a list of blocks, those of IPv4 among them under each of the two
forms that are unwrapped. -/
theorem blockedReason_v6_iff (v6 : Ipv6Addr) :
    blockedReason (.v6 v6) ≠ none ↔ ∃ block ∈ rejected6, block.Contains v6.bits := by
  have hbits := bits_eq_append v6
  have hvalue := toNat_append_eq v6.lead v6.carried.bits
  rw [← hbits] at hvalue
  have hcarried := v6.carried.bits.isLt
  rw [mem_rejected6_iff, ← blockedReason_v4_iff]
  by_cases hcompatible : v6.lead = 0
  · have hform : v6 = Wrapping.compatible.wrap v6.carried := by
      rw [Wrapping.wrap, ← hcompatible, ← hbits]
    have hreason := blockedReason_compatible v6.carried
    rw [← hform] at hreason
    have hzero : v6.lead.toNat = 0 := by
      rw [hcompatible]
      rfl
    have hown : (∃ block ∈ rejectedOwn6, block.Contains v6.bits) ↔
        v6.carried.bits = 1 ∨ v6.carried.bits = 0 := by
      have hone : (1 : BitVec 32).toNat = 1 := rfl
      have hnone : (0 : BitVec 32).toNat = 0 := rfl
      rw [mem_rejectedOwn6_iff, ← BitVec.toNat_inj, ← BitVec.toNat_inj, hone, hnone]
      omega
    rw [hreason, hown]
    by_cases hloopback : v6.carried.bits = 1
    · rw [if_pos hloopback]
      exact iff_of_true (Option.some_ne_none _) (.inl (.inl hloopback))
    · rw [if_neg hloopback, or_iff_right hloopback, and_iff_right (.inr hcompatible)]
      -- `::` carries 0.0.0.0, which is refused as such
      have hunspecified : v6.carried.bits = 0 → blockedReason (.v4 v6.carried) ≠ none := by
        intro hbits0
        rw [blockedReason_v4_iff, hbits0]
        decide
      tauto
  · rw [blockedReason_of_lead_ne hcompatible, unwrapped_v6]
    by_cases hmapped : v6.lead = 0xffff
    · have hvalue' : v6.lead.toNat = 0xffff := by
        rw [hmapped]
        rfl
      have hown : ¬ ∃ block ∈ rejectedOwn6, block.Contains v6.bits := by
        rw [mem_rejectedOwn6_iff]
        omega
      rw [if_pos (.inr hmapped), ← blockedReason_v4, or_iff_right hown,
        and_iff_right (.inl hmapped)]
    · rw [if_neg (not_or.mpr ⟨hcompatible, hmapped⟩), rangeReason_v6_ne_none_iff, or_iff_left]
      rintro ⟨hlead, _⟩
      tauto

/-- What the guard promises, and for which forms it keeps it. An address that carries a
rejected IPv4 address is rejected when it is mapped or compatible, and in no other case; and a
URL is accepted only if none of its addresses is rejected. -/
theorem wrapped_addresses_pass_iff (v4 : Ipv4Addr) (form : Wrapping) (net : Network)
    (url : String) :
    ((blockedReason (.v4 v4) ≠ none → blockedReason (.v6 (form.wrap v4)) ≠ none) ∧
      (check net url .guarded = .ok () → ∃ parsed, checkStatic net url = .ok parsed ∧
        ∀ addr ∈ destinations net parsed, blockedReason addr = none)) ↔
      form = .mapped ∨ form = .compatible ∨ ∀ block ∈ rejected4, ¬ block.Contains v4.bits := by
  have houtside : (∀ block ∈ rejected4, ¬ block.Contains v4.bits) ↔
      blockedReason (.v4 v4) = none := by
    have hblocked := (blockedReason_v4_iff v4).not
    rw [not_not] at hblocked
    rw [hblocked]
    simp only [not_exists, not_and]
  rw [and_iff_left check_eq_ok_iff.mp, houtside]
  cases form with
  | mapped =>
      rw [blockedReason_mapped]
      exact iff_of_true id (.inl rfl)
  | compatible =>
      apply iff_of_true _ (.inr (.inl rfl))
      intro hblocked
      rw [blockedReason_compatible]
      split
      · exact Option.some_ne_none _
      · exact hblocked
  | nat64 => simp [blockedReason_nat64]
  | sixToFour rest => simp [blockedReason_sixToFour]

/-- The loopback address is rejected, and passes through a translator or a tunnel. -/
theorem loopback_passes_translated :
    blockedReason (.v4 ⟨0x7f000001⟩) = some "a loopback address" ∧
      blockedReason (.v6 (Wrapping.nat64.wrap ⟨0x7f000001⟩)) = none ∧
      blockedReason (.v6 ((Wrapping.sixToFour 0).wrap ⟨0x7f000001⟩)) = none := by
  decide

end EntityResolution.Server
