import Mathlib
import StreamArena.Library.AsciiText

/-! The gate on DNS answers for provider hosts (src/src/egress_policy.rs), and what the published
registries of special-purpose addresses say of the addresses it lets through. -/
namespace StreamArena.Egress
open AsciiText

structure Ipv4Addr where
  a : UInt8
  b : UInt8
  c : UInt8
  d : UInt8
  deriving DecidableEq

structure Ipv6Addr where
  s0 : UInt16
  s1 : UInt16
  s2 : UInt16
  s3 : UInt16
  s4 : UInt16
  s5 : UInt16
  s6 : UInt16
  s7 : UInt16
  deriving DecidableEq

inductive IpAddr where
  | v4 (address : Ipv4Addr)
  | v6 (address : Ipv6Addr)
  deriving DecidableEq

def Ipv4Addr.octets (address : Ipv4Addr) : List Nat :=
  [address.a.toNat, address.b.toNat, address.c.toNat, address.d.toNat]

def Ipv6Addr.segments (address : Ipv6Addr) : List Nat :=
  [address.s0.toNat, address.s1.toNat, address.s2.toNat, address.s3.toNat, address.s4.toNat, address.s5.toNat,
    address.s6.toNat, address.s7.toNat]

/-- Whether an address, as units of so many bits, starts with the first bits of another one. -/
def inBlock (width : Nat) : List Nat → List Nat → Nat → Bool
  | unit :: units, first :: rest, bits =>
    if bits < width then unit / 2 ^ (width - bits) == first / 2 ^ (width - bits)
    else unit == first && inBlock width units rest (bits - width)
  | _, _, _ => true

theorem inBlock_cons (width unit first : Nat) (units rest : List Nat) (bits : Nat) :
    inBlock width (unit :: units) (first :: rest) bits =
      if bits < width then unit / 2 ^ (width - bits) == first / 2 ^ (width - bits)
      else unit == first && inBlock width units rest (bits - width) := rfl

theorem inBlock_nil (width : Nat) (units : List Nat) (bits : Nat) : inBlock width units [] bits = true := by
  cases units <;> rfl

/-- A block of addresses: its first units, and how many bits its addresses share. -/
structure Block where
  first : List Nat
  bits : Nat

def Block.hasIpv4 (block : Block) (address : Ipv4Addr) : Bool := inBlock 8 address.octets block.first block.bits

def Block.hasIpv6 (block : Block) (address : Ipv6Addr) : Bool := inBlock 16 address.segments block.first block.bits

/-- The IPv4 address in the last or other two segments. -/
def ofSegments (high low : UInt16) : Ipv4Addr :=
  ⟨.ofNat (high.toNat / 256), .ofNat high.toNat, .ofNat (low.toNat / 256), .ofNat low.toNat⟩

namespace Ipv6Addr

/-- The IPv4 address of an IPv4-compatible or IPv4-mapped one. -/
def toIpv4 (address : Ipv6Addr) : Option Ipv4Addr :=
  if (Block.hasIpv6 ⟨[0, 0, 0, 0, 0, 0], 96⟩ address || Block.hasIpv6 ⟨[0, 0, 0, 0, 0, 0xffff], 96⟩ address) = true then
    some (ofSegments address.s6 address.s7)
  else none

def isUnspecified (address : Ipv6Addr) : Bool := address.segments == [0, 0, 0, 0, 0, 0, 0, 0]
def isLoopback (address : Ipv6Addr) : Bool := address.segments == [0, 0, 0, 0, 0, 0, 0, 1]
def isMulticast (address : Ipv6Addr) : Bool := Block.hasIpv6 ⟨[0xff00], 8⟩ address
def isUniqueLocal (address : Ipv6Addr) : Bool := Block.hasIpv6 ⟨[0xfc00], 7⟩ address
def isUnicastLinkLocal (address : Ipv6Addr) : Bool := Block.hasIpv6 ⟨[0xfe80], 10⟩ address

end Ipv6Addr

def isPublicIpv4 (address : Ipv4Addr) : Bool :=
  let a := address.a.toNat
  let b := address.b.toNat
  let c := address.c.toNat
  !(a == 0 || a == 10 || (a == 100 && 64 ≤ b && b ≤ 127) || a == 127 || (a == 169 && b == 254) ||
    (a == 172 && 16 ≤ b && b ≤ 31) || (a == 192 && b == 0 && c == 0) || (a == 192 && b == 0 && c == 2) ||
    (a == 192 && b == 168) || (a == 198 && 18 ≤ b && b ≤ 19) || (a == 198 && b == 51 && c == 100) ||
    (a == 203 && b == 0 && c == 113) || 224 ≤ a)

def isPublicIpv6 (address : Ipv6Addr) : Bool :=
  match address.toIpv4 with
  | some embedded => isPublicIpv4 embedded
  | none =>
    !address.isUnspecified && !address.isLoopback && !address.isMulticast && !address.isUniqueLocal &&
      !address.isUnicastLinkLocal && !(address.s0.toNat == 0x2001 && address.s1.toNat == 0x0db8) &&
      !(address.s0.toNat == 0x2001 && address.s1.toNat == 0x0002)

def isPublicIp : IpAddr → Bool
  | .v4 address => isPublicIpv4 address
  | .v6 address => isPublicIpv6 address

def validatePublicDnsAnswer (hostname : Text) (addresses : List IpAddr) : Except Text Unit :=
  if (addresses.isEmpty || addresses.any fun address => !isPublicIp address) = true then
    .error ("provider DNS answer for ".toList ++ hostname ++ " contained a non-public address".toList)
  else .ok ()

/-- The blocks of the registry of special-purpose IPv4 addresses that are not globally reachable. -/
def unreachableIpv4 : List Block :=
  [⟨[0], 8⟩, ⟨[10], 8⟩, ⟨[100, 64], 10⟩, ⟨[127], 8⟩, ⟨[169, 254], 16⟩, ⟨[172, 16], 12⟩, ⟨[192, 0, 0], 24⟩,
    ⟨[192, 0, 2], 24⟩, ⟨[192, 168], 16⟩, ⟨[198, 18], 15⟩, ⟨[198, 51, 100], 24⟩, ⟨[203, 0, 113], 24⟩, ⟨[240], 4⟩]

/-- The globally reachable ones inside them: the anycast addresses of PCP and TURN. -/
def reachableIpv4 : List Block := [⟨[192, 0, 0, 9], 32⟩, ⟨[192, 0, 0, 10], 32⟩]

def multicastIpv4 : Block := ⟨[224], 4⟩

/-- The blocks of the registry of special-purpose IPv6 addresses that are not globally reachable. Those that
embed IPv4 addresses are left to the addresses embedded. -/
def unreachableIpv6 : List Block :=
  [⟨[0x64, 0xff9b, 1], 48⟩, ⟨[0x100, 0, 0, 0], 64⟩, ⟨[0x100, 0, 0, 1], 64⟩, ⟨[0x2001, 0], 23⟩, ⟨[0x2001, 0xdb8], 32⟩,
    ⟨[0x3fff, 0], 20⟩, ⟨[0x5f00], 16⟩, ⟨[0xfc00], 7⟩, ⟨[0xfe80], 10⟩]

/-- The globally reachable ones inside them, all for protocols of the IETF. -/
def reachableIpv6 : List Block :=
  [⟨[0x2001, 1, 0, 0, 0, 0, 0, 1], 128⟩, ⟨[0x2001, 1, 0, 0, 0, 0, 0, 2], 128⟩, ⟨[0x2001, 1, 0, 0, 0, 0, 0, 3], 128⟩,
    ⟨[0x2001, 3], 32⟩, ⟨[0x2001, 4, 0x112], 48⟩, ⟨[0x2001, 0x20], 28⟩, ⟨[0x2001, 0x30], 28⟩]

def nat64 : Block := ⟨[0x64, 0xff9b, 0, 0, 0, 0], 96⟩
def sixToFour : Block := ⟨[0x2002], 16⟩

/-- What an IPv4 address needs to name a host anywhere: it is not multicast, and no block keeps it local. -/
def globallyRoutableIpv4 (address : Ipv4Addr) : Bool :=
  !multicastIpv4.hasIpv4 address &&
    (!(unreachableIpv4.any fun block => block.hasIpv4 address) || reachableIpv4.any fun block => block.hasIpv4 address)

/-- The address that an IPv6 address embeds: as a compatible or mapped one, for NAT64, or for 6to4. -/
def embeddedIpv4 (address : Ipv6Addr) : Option Ipv4Addr :=
  match address.toIpv4 with
  | some embedded => some embedded
  | none =>
    if nat64.hasIpv6 address = true then some (ofSegments address.s6 address.s7)
    else if sixToFour.hasIpv6 address = true then some (ofSegments address.s1 address.s2)
    else none

def globallyRoutableIpv6 (address : Ipv6Addr) : Bool :=
  match embeddedIpv4 address with
  | some embedded => globallyRoutableIpv4 embedded
  | none =>
    !address.isMulticast &&
      (!(unreachableIpv6.any fun block => block.hasIpv6 address) || reachableIpv6.any fun block => block.hasIpv6 address)

def globallyRoutable : IpAddr → Bool
  | .v4 address => globallyRoutableIpv4 address
  | .v6 address => globallyRoutableIpv6 address

/-- The answers that ought to be accepted. -/
def Acceptable (addresses : List IpAddr) : Prop :=
  addresses ≠ [] ∧ ∀ address ∈ addresses, globallyRoutable address = true

/-- The blocks of IPv6 that the gate does not know of. -/
def unknownBlocks : List Block :=
  [⟨[0x64, 0xff9b, 1], 48⟩, ⟨[0x100, 0, 0, 0], 64⟩, ⟨[0x100, 0, 0, 1], 64⟩, ⟨[0x3fff, 0], 20⟩, ⟨[0x5f00], 16⟩]

/-- A NAT64 or 6to4 address of an unroutable IPv4 address, or one of a block that the gate does not know of. -/
def LetThrough : IpAddr → Prop
  | .v4 _ => False
  | .v6 address => address.toIpv4 = none ∧
    match embeddedIpv4 address with
    | some embedded => globallyRoutableIpv4 embedded = false
    | none => (unknownBlocks.any fun block => block.hasIpv6 address) = true ∨
      (Block.hasIpv6 ⟨[0x2001, 0], 23⟩ address = true ∧ Block.hasIpv6 ⟨[0x2001, 2], 32⟩ address = false ∧
        (reachableIpv6.any fun block => block.hasIpv6 address) = false)

def isAnycastIpv4 (address : Ipv4Addr) : Prop := (reachableIpv4.any fun block => block.hasIpv4 address) = true

/-- The anycast addresses inside a block that is kept local otherwise. -/
def Withheld : IpAddr → Prop
  | .v4 address => isAnycastIpv4 address
  | .v6 address => ∃ embedded, address.toIpv4 = some embedded ∧ isAnycastIpv4 embedded

section
variable {x y z : Nat} {address : Ipv4Addr}

theorem hasIpv4_8 : Block.hasIpv4 ⟨[x], 8⟩ address = (address.a.toNat == x) := by
  simp [Block.hasIpv4, Ipv4Addr.octets, inBlock_cons, inBlock_nil]

theorem hasIpv4_16 : Block.hasIpv4 ⟨[x, y], 16⟩ address = (address.a.toNat == x && address.b.toNat == y) := by
  simp [Block.hasIpv4, Ipv4Addr.octets, inBlock_cons, inBlock_nil]

theorem hasIpv4_24 : Block.hasIpv4 ⟨[x, y, z], 24⟩ address =
    (address.a.toNat == x && address.b.toNat == y && address.c.toNat == z) := by
  simp [Block.hasIpv4, Ipv4Addr.octets, inBlock_cons, inBlock_nil, Bool.and_assoc]

theorem hasIpv4_shared : Block.hasIpv4 ⟨[100, 64], 10⟩ address =
    (address.a.toNat == 100 && decide (64 ≤ address.b.toNat) && decide (address.b.toNat ≤ 127)) := by
  rw [Bool.eq_iff_iff]
  simp [Block.hasIpv4, Ipv4Addr.octets, inBlock_cons]
  omega

theorem hasIpv4_private : Block.hasIpv4 ⟨[172, 16], 12⟩ address =
    (address.a.toNat == 172 && decide (16 ≤ address.b.toNat) && decide (address.b.toNat ≤ 31)) := by
  rw [Bool.eq_iff_iff]
  simp [Block.hasIpv4, Ipv4Addr.octets, inBlock_cons]
  omega

theorem hasIpv4_benchmark : Block.hasIpv4 ⟨[198, 18], 15⟩ address =
    (address.a.toNat == 198 && decide (18 ≤ address.b.toNat) && decide (address.b.toNat ≤ 19)) := by
  rw [Bool.eq_iff_iff]
  simp [Block.hasIpv4, Ipv4Addr.octets, inBlock_cons]
  omega

/-- The last range of the code is the multicast addresses and the reserved ones. -/
theorem hasIpv4_high : decide (224 ≤ address.a.toNat) = (multicastIpv4.hasIpv4 address || Block.hasIpv4 ⟨[240], 4⟩ address) := by
  have ha := address.a.toNat_lt
  rw [Bool.eq_iff_iff]
  simp [multicastIpv4, Block.hasIpv4, Ipv4Addr.octets, inBlock_cons]
  omega

theorem isPublicIpv4_iff :
    isPublicIpv4 address = !(multicastIpv4.hasIpv4 address || unreachableIpv4.any fun block => block.hasIpv4 address) := by
  rw [isPublicIpv4, hasIpv4_high]
  simp only [unreachableIpv4, List.any_cons, List.any_nil, hasIpv4_8, hasIpv4_16, hasIpv4_24, hasIpv4_shared,
    hasIpv4_private, hasIpv4_benchmark, Bool.or_assoc, Bool.or_false]
  cases multicastIpv4.hasIpv4 address <;> simp

/-- The anycast addresses lie in a block that is kept local. -/
theorem unreachable_of_isAnycastIpv4 (h : isAnycastIpv4 address) :
    (unreachableIpv4.any fun block => block.hasIpv4 address) = true ∧ multicastIpv4.hasIpv4 address = false := by
  have hfirst : address.a.toNat = 192 ∧ address.b.toNat = 0 ∧ address.c.toNat = 0 := by
    simp [isAnycastIpv4, reachableIpv4, Block.hasIpv4, Ipv4Addr.octets, inBlock_cons, inBlock_nil] at h
    omega
  have hblock : Block.hasIpv4 ⟨[192, 0, 0], 24⟩ address = true := by simp [hasIpv4_24, hfirst]
  refine ⟨List.any_eq_true.mpr ⟨_, ?_, hblock⟩, ?_⟩
  · simp [unreachableIpv4]
  · simp [multicastIpv4, Block.hasIpv4, Ipv4Addr.octets, inBlock_cons, hfirst]

/-- The gate and the registry differ on the anycast addresses alone. -/
theorem globallyRoutableIpv4_iff :
    globallyRoutableIpv4 address = true ↔ isPublicIpv4 address = true ∨ isAnycastIpv4 address := by
  rw [globallyRoutableIpv4, isPublicIpv4_iff]
  by_cases h : isAnycastIpv4 address
  · obtain ⟨hunreachable, hunicast⟩ := unreachable_of_isAnycastIpv4 h
    rw [hunicast, show (reachableIpv4.any fun block => block.hasIpv4 address) = true from h]
    simp [h]
  · have hnone : (reachableIpv4.any fun block => block.hasIpv4 address) = false := Bool.eq_false_iff.mpr h
    rw [hnone, Bool.or_false, ← Bool.not_or]
    simp [h]

theorem not_public_of_isAnycastIpv4 (h : isAnycastIpv4 address) : isPublicIpv4 address = false := by
  rw [isPublicIpv4_iff, (unreachable_of_isAnycastIpv4 h).1, Bool.or_true]
  rfl

end

section
variable {address : Ipv6Addr}

theorem isMulticast_iff : address.isMulticast = true ↔ 0xff00 ≤ address.s0.toNat := by
  have hlt := address.s0.toNat_lt
  simp [Ipv6Addr.isMulticast, Block.hasIpv6, Ipv6Addr.segments, inBlock_cons]
  omega

theorem isUniqueLocal_iff :
    address.isUniqueLocal = true ↔ 0xfc00 ≤ address.s0.toNat ∧ address.s0.toNat < 0xfe00 := by
  simp [Ipv6Addr.isUniqueLocal, Block.hasIpv6, Ipv6Addr.segments, inBlock_cons]
  omega

theorem isUnicastLinkLocal_iff :
    address.isUnicastLinkLocal = true ↔ 0xfe80 ≤ address.s0.toNat ∧ address.s0.toNat < 0xfec0 := by
  simp [Ipv6Addr.isUnicastLinkLocal, Block.hasIpv6, Ipv6Addr.segments, inBlock_cons]
  omega

/-- The addresses that embed none by their first segments are neither `::` nor `::1`. -/
theorem not_low_of_none (h : address.toIpv4 = none) : address.isUnspecified = false ∧ address.isLoopback = false := by
  rw [Ipv6Addr.toIpv4] at h
  split at h
  · cases h
  · next hblock =>
    constructor
    · rw [Bool.eq_false_iff]
      intro hsegments
      simp [Ipv6Addr.isUnspecified, Ipv6Addr.segments] at hsegments
      simp [Block.hasIpv6, Ipv6Addr.segments, inBlock_cons, inBlock_nil, hsegments] at hblock
    · rw [Bool.eq_false_iff]
      intro hsegments
      simp [Ipv6Addr.isLoopback, Ipv6Addr.segments] at hsegments
      simp [Block.hasIpv6, Ipv6Addr.segments, inBlock_cons, inBlock_nil, hsegments] at hblock

theorem isPublicIpv6_iff (h : address.toIpv4 = none) :
    isPublicIpv6 address = true ↔ address.isMulticast = false ∧ address.isUniqueLocal = false ∧
      address.isUnicastLinkLocal = false ∧
        ¬(address.s0.toNat = 0x2001 ∧ (address.s1.toNat = 0xdb8 ∨ address.s1.toNat = 2)) := by
  obtain ⟨hunspecified, hloopback⟩ := not_low_of_none h
  rw [isPublicIpv6, h]
  simp [hunspecified, hloopback]
  grind

theorem unknownBlocks_iff : (unknownBlocks.any fun block => block.hasIpv6 address) = true ↔
    (address.s0.toNat = 0x64 ∧ address.s1.toNat = 0xff9b ∧ address.s2.toNat = 1) ∨
      (address.s0.toNat = 0x100 ∧ address.s1.toNat = 0 ∧ address.s2.toNat = 0 ∧ address.s3.toNat ≤ 1) ∨
        (address.s0.toNat = 0x3fff ∧ address.s1.toNat < 0x1000) ∨ address.s0.toNat = 0x5f00 := by
  simp [unknownBlocks, Block.hasIpv6, Ipv6Addr.segments, inBlock_cons, inBlock_nil]
  omega

theorem protocolBlock_iff :
    Block.hasIpv6 ⟨[0x2001, 0], 23⟩ address = true ↔ address.s0.toNat = 0x2001 ∧ address.s1.toNat < 0x200 := by
  simp [Block.hasIpv6, Ipv6Addr.segments, inBlock_cons]

theorem documentationBlock_iff :
    Block.hasIpv6 ⟨[0x2001, 0xdb8], 32⟩ address = true ↔ address.s0.toNat = 0x2001 ∧ address.s1.toNat = 0xdb8 := by
  simp [Block.hasIpv6, Ipv6Addr.segments, inBlock_cons, inBlock_nil]

theorem unreachableIpv6_iff : (unreachableIpv6.any fun block => block.hasIpv6 address) = true ↔
    (unknownBlocks.any fun block => block.hasIpv6 address) = true ∨
      (address.s0.toNat = 0x2001 ∧ (address.s1.toNat < 0x200 ∨ address.s1.toNat = 0xdb8)) ∨
        address.isUniqueLocal = true ∨ address.isUnicastLinkLocal = true := by
  rw [and_or_left, ← protocolBlock_iff, ← documentationBlock_iff, Ipv6Addr.isUniqueLocal, Ipv6Addr.isUnicastLinkLocal]
  simp only [unreachableIpv6, unknownBlocks, List.any_cons, List.any_nil, Bool.or_false, Bool.or_eq_true]
  tauto

theorem of_reachableIpv6 (h : (reachableIpv6.any fun block => block.hasIpv6 address) = true) :
    address.s0.toNat = 0x2001 ∧ address.s1.toNat < 0x40 ∧ address.s1.toNat ≠ 2 := by
  simp [reachableIpv6, Block.hasIpv6, Ipv6Addr.segments, inBlock_cons, inBlock_nil] at h
  omega

/-- The block of `2001::` meets none of the other blocks. -/
theorem protocols_apart (hs : address.s0.toNat = 0x2001) : address.isMulticast = false ∧ address.isUniqueLocal = false ∧
    address.isUnicastLinkLocal = false ∧ (unknownBlocks.any fun block => block.hasIpv6 address) = false := by
  simp only [← Bool.not_eq_true, isMulticast_iff, isUniqueLocal_iff, isUnicastLinkLocal_iff, unknownBlocks_iff, hs]
  omega

/-- The blocks that the gate does not know of meet none of those it refuses. -/
theorem unknown_apart (h : (unknownBlocks.any fun block => block.hasIpv6 address) = true) :
    address.isMulticast = false ∧ address.isUniqueLocal = false ∧ address.isUnicastLinkLocal = false ∧
      address.s0.toNat ≠ 0x2001 := by
  have hfirst : address.s0.toNat < 0x2001 ∨ (0x2001 < address.s0.toNat ∧ address.s0.toNat < 0xfc00) := by
    rw [unknownBlocks_iff] at h
    omega
  simp only [← Bool.not_eq_true, isMulticast_iff, isUniqueLocal_iff, isUnicastLinkLocal_iff]
  omega

theorem toIpv4_of_none (h : embeddedIpv4 address = none) : address.toIpv4 = none := by
  rw [embeddedIpv4] at h
  split at h
  · cases h
  · assumption

theorem letThrough_iff (h : embeddedIpv4 address = none) : LetThrough (.v6 address) ↔
    (unknownBlocks.any fun block => block.hasIpv6 address) = true ∨
      (address.s0.toNat = 0x2001 ∧ address.s1.toNat < 0x200 ∧ address.s1.toNat ≠ 2 ∧
        (reachableIpv6.any fun block => block.hasIpv6 address) = false) := by
  have hbenchmark : Block.hasIpv6 ⟨[0x2001, 2], 32⟩ address = false ↔
      (address.s0.toNat = 0x2001 → address.s1.toNat ≠ 2) := by
    simp [Block.hasIpv6, Ipv6Addr.segments, inBlock_cons, inBlock_nil]
  rw [LetThrough, h, and_iff_right (toIpv4_of_none h), protocolBlock_iff, hbenchmark, and_assoc]
  refine or_congr_right (and_congr_right fun hs => ?_)
  rw [imp_iff_right hs]

theorem globallyRoutableIpv6_of_none (h : embeddedIpv4 address = none) : globallyRoutableIpv6 address = true ↔
    address.isMulticast = false ∧ (¬(unreachableIpv6.any fun block => block.hasIpv6 address) = true ∨
      (reachableIpv6.any fun block => block.hasIpv6 address) = true) := by
  rw [globallyRoutableIpv6, h, Bool.not_eq_true]
  simp

/-- Inside the block of `2001::` the second segment decides. -/
theorem isPublicIpv6_protocols (h : embeddedIpv4 address = none) (hs : address.s0.toNat = 0x2001) :
    isPublicIpv6 address = true ↔ LetThrough (.v6 address) ∨ globallyRoutableIpv6 address = true := by
  obtain ⟨hmulticast, hlocal, hlink, hunknown⟩ := protocols_apart hs
  rw [isPublicIpv6_iff (toIpv4_of_none h), letThrough_iff h, globallyRoutableIpv6_of_none h, unreachableIpv6_iff]
  simp only [hmulticast, hlocal, hlink, hunknown, hs, Bool.false_eq_true, true_and, false_or, or_false]
  cases hreachable : reachableIpv6.any fun block => block.hasIpv6 address
  · simp only [ne_eq, and_true, Bool.false_eq_true, or_false]
    omega
  · have hfirst := of_reachableIpv6 hreachable
    simp only [ne_eq, or_true, iff_true]
    omega

/-- Outside it what the gate does not know of is the difference. -/
theorem isPublicIpv6_elsewhere (h : embeddedIpv4 address = none) (hs : address.s0.toNat ≠ 0x2001) :
    isPublicIpv6 address = true ↔ LetThrough (.v6 address) ∨ globallyRoutableIpv6 address = true := by
  have hreachable : (reachableIpv6.any fun block => block.hasIpv6 address) = false :=
    Bool.eq_false_iff.mpr fun hreachable => hs (of_reachableIpv6 hreachable).1
  rw [isPublicIpv6_iff (toIpv4_of_none h), letThrough_iff h, globallyRoutableIpv6_of_none h, hreachable,
    unreachableIpv6_iff]
  simp only [hs, false_and, not_false_eq_true, and_true, or_false, false_or, Bool.false_eq_true]
  cases hunknown : unknownBlocks.any fun block => block.hasIpv6 address
  · simp
  · obtain ⟨hmulticast, hlocal, hlink, -⟩ := unknown_apart hunknown
    simp [hmulticast, hlocal, hlink]

/-- What is let through is not routable, where no IPv4 address is embedded. -/
theorem not_routable_of_none (h : embeddedIpv4 address = none) (hthrough : LetThrough (.v6 address)) :
    globallyRoutableIpv6 address = false := by
  rw [Bool.eq_false_iff, ne_eq, globallyRoutableIpv6_of_none h, unreachableIpv6_iff]
  rw [letThrough_iff h] at hthrough
  intro ⟨_, hkept⟩
  rcases hthrough with hunknown | ⟨hs, hlow, -, hreachable⟩
  · obtain hnot | hreachable := hkept
    · exact hnot (.inl hunknown)
    · exact (unknown_apart hunknown).2.2.2 (of_reachableIpv6 hreachable).1
  · obtain hnot | hreachable' := hkept
    · exact hnot (.inr (.inl ⟨hs, .inl hlow⟩))
    · cases hreachable.symm.trans hreachable'

/-- Where no IPv4 address is embedded, what the gate lets through is what it does not know of. -/
theorem isPublicIpv6_of_none (h : embeddedIpv4 address = none) :
    isPublicIpv6 address = true ↔ LetThrough (.v6 address) ∨ globallyRoutableIpv6 address = true := by
  by_cases hs : address.s0.toNat = 0x2001
  · exact isPublicIpv6_protocols h hs
  · exact isPublicIpv6_elsewhere h hs

end

/-- An embedded address that the gate knows of decides, but for the anycast ones. -/
theorem isPublicIpv6_of_toIpv4 {address : Ipv6Addr} {embedded : Ipv4Addr} (h : address.toIpv4 = some embedded) :
    isPublicIpv6 address = isPublicIpv4 embedded ∧ globallyRoutableIpv6 address = globallyRoutableIpv4 embedded ∧
      ¬ LetThrough (.v6 address) := by
  refine ⟨by rw [isPublicIpv6, h], by rw [globallyRoutableIpv6, embeddedIpv4, h], fun hthrough => ?_⟩
  cases h.symm.trans hthrough.1

/-- A NAT64 or 6to4 address is let through whatever it embeds. -/
theorem isPublicIpv6_of_embedded {address : Ipv6Addr} {embedded : Ipv4Addr} (hnone : address.toIpv4 = none)
    (h : embeddedIpv4 address = some embedded) : isPublicIpv6 address = true ∧
      globallyRoutableIpv6 address = globallyRoutableIpv4 embedded := by
  refine ⟨?_, by rw [globallyRoutableIpv6, h]⟩
  have hfirst : address.s0.toNat = 0x64 ∨ address.s0.toNat = 0x2002 := by
    rw [embeddedIpv4, hnone] at h
    dsimp only at h
    split at h
    · next hnat64 =>
      simp [nat64, Block.hasIpv6, Ipv6Addr.segments, inBlock_cons, inBlock_nil] at hnat64
      exact .inl hnat64.1
    · split at h
      · next hsixToFour =>
        simp [sixToFour, Block.hasIpv6, Ipv6Addr.segments, inBlock_cons, inBlock_nil] at hsixToFour
        exact .inr hsixToFour
      · cases h
  rw [isPublicIpv6_iff hnone]
  simp only [← Bool.not_eq_true, isMulticast_iff, isUniqueLocal_iff, isUnicastLinkLocal_iff]
  omega

theorem isPublicIp_iff (address : IpAddr) : isPublicIp address = true ↔
    LetThrough address ∨ globallyRoutable address = true ∧ ¬ Withheld address := by
  cases address with
  | v4 address =>
    rw [isPublicIp, globallyRoutable, globallyRoutableIpv4_iff, LetThrough, Withheld, false_or]
    constructor
    · intro h
      exact ⟨.inl h, fun hanycast => by cases (not_public_of_isAnycastIpv4 hanycast).symm.trans h⟩
    · intro ⟨h, hnot⟩
      exact h.resolve_right hnot
  | v6 address =>
    rw [isPublicIp, globallyRoutable]
    cases hfour : address.toIpv4 with
    | some embedded =>
      obtain ⟨hpublic, hroutable, hnot⟩ := isPublicIpv6_of_toIpv4 hfour
      have hwithheld : Withheld (.v6 address) ↔ isAnycastIpv4 embedded := by
        rw [Withheld, hfour]
        simp
      rw [hpublic, hroutable, hwithheld, globallyRoutableIpv4_iff, or_iff_right hnot]
      constructor
      · intro h
        exact ⟨.inl h, fun hanycast => by cases (not_public_of_isAnycastIpv4 hanycast).symm.trans h⟩
      · intro ⟨h, hnot⟩
        exact h.resolve_right hnot
    | none =>
      have hwithheld : ¬ Withheld (.v6 address) := fun ⟨_, hembedded, _⟩ => by cases hfour.symm.trans hembedded
      rw [and_iff_left hwithheld]
      cases hembedded : embeddedIpv4 address with
      | some embedded =>
        obtain ⟨hpublic, hroutable⟩ := isPublicIpv6_of_embedded hfour hembedded
        have hthrough : LetThrough (.v6 address) ↔ globallyRoutableIpv4 embedded = false := by
          rw [LetThrough, hembedded]
          exact and_iff_right hfour
        rw [hpublic, hroutable, hthrough]
        cases globallyRoutableIpv4 embedded <;> simp
      | none =>
        exact isPublicIpv6_of_none hembedded

/-- What is let through is not routable. -/
theorem not_routable_of_letThrough {address : IpAddr} (h : LetThrough address) : globallyRoutable address = false := by
  cases address with
  | v4 address => cases h
  | v6 address =>
    cases hembedded : embeddedIpv4 address with
    | some embedded =>
      rw [globallyRoutable, (isPublicIpv6_of_embedded h.1 hembedded).2]
      have hbody := h.2
      rwa [hembedded] at hbody
    | none => exact not_routable_of_none hembedded h

/-- What is withheld is routable. -/
theorem routable_of_withheld {address : IpAddr} (h : Withheld address) : globallyRoutable address = true := by
  cases address with
  | v4 address => exact globallyRoutableIpv4_iff.mpr (.inr h)
  | v6 address =>
    obtain ⟨embedded, hfour, hanycast⟩ := h
    rw [globallyRoutable, (isPublicIpv6_of_toIpv4 hfour).2.1]
    exact globallyRoutableIpv4_iff.mpr (.inr hanycast)

theorem validate_isOk_iff (hostname : Text) (addresses : List IpAddr) :
    validatePublicDnsAnswer hostname addresses = .ok () ↔
      addresses ≠ [] ∧ ∀ address ∈ addresses, isPublicIp address = true := by
  rw [validatePublicDnsAnswer]
  split
  next h =>
    constructor
    · intro hok
      cases hok
    · intro ⟨hne, hall⟩
      simp [hne] at h
      obtain ⟨address, hmem, hnot⟩ := h
      cases (hall address hmem).symm.trans hnot
  next h =>
    simp at h
    exact iff_of_true rfl ⟨h.1, h.2⟩

/-- An address that keeps the others of an answer from being accepted. -/
def Refusable (address : IpAddr) : Prop :=
  ¬ LetThrough address ∧ (globallyRoutable address = false ∨ Withheld address)

theorem not_public_iff (address : IpAddr) : isPublicIp address = false ↔ Refusable address := by
  rw [Bool.eq_false_iff, ne_eq, isPublicIp_iff, not_or, not_and_or, not_not, Bool.not_eq_true, Refusable]

/-- An answer is accepted exactly when it ought to be, unless the gate does not know what is wrong with one
of its addresses and finds nothing wrong with the others, or refuses an anycast address among routable ones. -/
theorem accepted_iff_acceptable (hostname : Text) (addresses : List IpAddr) :
    (validatePublicDnsAnswer hostname addresses = .ok () ↔ Acceptable addresses) ↔
      ((∃ address ∈ addresses, LetThrough address) → ∃ address ∈ addresses, Refusable address) ∧
        ((∃ address ∈ addresses, Withheld address) → ∃ address ∈ addresses, globallyRoutable address = false) := by
  rw [validate_isOk_iff, Acceptable]
  have hwithheld (address : IpAddr) (h : Withheld address) : isPublicIp address = false := by
    rw [Bool.eq_false_iff]
    intro hpublic
    obtain hthrough | ⟨-, hnot⟩ := (isPublicIp_iff address).mp hpublic
    · cases (routable_of_withheld h).symm.trans (not_routable_of_letThrough hthrough)
    · exact hnot h
  constructor
  · intro hsame
    constructor
    · intro ⟨address, hmem, hthrough⟩
      by_contra hall
      push Not at hall
      have hall (other : IpAddr) (hother : other ∈ addresses) : isPublicIp other = true := by
        rw [← Bool.not_eq_false, not_public_iff]
        exact hall other hother
      have hroutable := (hsame.mp ⟨List.ne_nil_of_mem hmem, hall⟩).2 address hmem
      cases (not_routable_of_letThrough hthrough).symm.trans hroutable
    · intro ⟨address, hmem, hanycast⟩
      by_contra hall
      push Not at hall
      have hall (other : IpAddr) (hother : other ∈ addresses) : globallyRoutable other = true := by
        simpa using hall other hother
      have hpublic := (hsame.mpr ⟨List.ne_nil_of_mem hmem, hall⟩).2 address hmem
      cases (hwithheld address hanycast).symm.trans hpublic
  · intro ⟨hthrough, hanycast⟩
    refine and_congr_right fun _ => ⟨fun hall address hmem => ?_, fun hall address hmem => ?_⟩
    · obtain hin | ⟨hroutable, -⟩ := (isPublicIp_iff address).mp (hall address hmem)
      · obtain ⟨other, hother, hnot⟩ := hthrough ⟨address, hmem, hin⟩
        cases (hall other hother).symm.trans ((not_public_iff other).mpr hnot)
      · exact hroutable
    · refine (isPublicIp_iff address).mpr (.inr ⟨hall address hmem, fun hw => ?_⟩)
      obtain ⟨other, hother, hnot⟩ := hanycast ⟨address, hmem, hw⟩
      cases (hall other hother).symm.trans hnot

/-- `64:ff9b::127.0.0.1`. -/
def nat64Loopback : IpAddr := .v6 ⟨0x64, 0xff9b, 0, 0, 0, 0, 0x7f00, 1⟩

theorem nat64_loopback_accepted :
    ¬ ∀ hostname addresses, validatePublicDnsAnswer hostname addresses = .ok () ↔ Acceptable addresses := by
  intro h
  have haccepted : validatePublicDnsAnswer [] [nat64Loopback] = .ok () := by decide +kernel
  have hroutable := ((h [] [nat64Loopback]).mp haccepted).2 nat64Loopback List.mem_cons_self
  have hnot : globallyRoutable nat64Loopback = false := by decide +kernel
  cases hnot.symm.trans hroutable

end StreamArena.Egress
