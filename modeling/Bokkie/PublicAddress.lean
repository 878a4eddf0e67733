import Mathlib.Algebra.Group.Nat.Defs
import Mathlib.Data.List.Basic

/-!
# Public addresses

Which addresses the gateway may connect to on the web. The code compares an address with a network
under a mask; the rule says which of an address's first bits are a network's.
-/

namespace Bokkie

abbrev Ipv4Addr := BitVec 32

abbrev Ipv6Addr := BitVec 128

inductive IpAddr where
  | v4 (address : Ipv4Addr)
  | v6 (address : Ipv6Addr)
deriving DecidableEq

section Ranges

variable {w : ℕ}

/-- The address is in the network's range: its first bits are the network's. -/
def Within (network : BitVec w) (length : ℕ) (address : BitVec w) : Prop :=
  ∀ i < length, address.getMsbD i = network.getMsbD i

instance (network : BitVec w) (length : ℕ) (address : BitVec w) :
    Decidable (Within network length address) :=
  inferInstanceAs (Decidable (∀ i < length, address.getMsbD i = network.getMsbD i))

/-- The mask of the first bits keeps just what they are. -/
theorem and_mask_eq_iff {length : ℕ} (h : length ≤ w) (address network : BitVec w) :
    address &&& BitVec.allOnes w <<< (w - length) = network &&& BitVec.allOnes w <<< (w - length) ↔
      Within network length address := by
  have hbit : ∀ (x : BitVec w) i, (x &&& BitVec.allOnes w <<< (w - length)).getMsbD i =
      (x.getMsbD i && decide (i < length)) := by
    intro x i
    rw [BitVec.getMsbD_and, BitVec.getMsbD_shiftLeft, BitVec.getMsbD_allOnes]
    have hiff : i + (w - length) < w ↔ i < length := by omega
    simp only [hiff]
  constructor
  · intro heq i hi
    have hi' := congrArg (fun x => BitVec.getMsbD x i) heq
    simpa [hbit, hi] using hi'
  · intro hwithin
    refine BitVec.eq_of_getMsbD_eq fun i _ => ?_
    rw [hbit, hbit]
    by_cases hi : i < length
    · rw [hwithin i hi]
    · simp [hi]

/-- So does shifting the others out. -/
theorem ushiftRight_eq_iff {length : ℕ} (h : length ≤ w) (address network : BitVec w) :
    address >>> (w - length) = network >>> (w - length) ↔ Within network length address := by
  have hbit : ∀ (x : BitVec w) i, i < length →
      (x >>> (w - length)).getMsbD (i + (w - length)) = x.getMsbD i := by
    intro x i hi
    rw [BitVec.getMsbD_ushiftRight, Nat.add_sub_cancel]
    simp [show i + (w - length) < w by omega]
  constructor
  · intro heq i hi
    rw [← hbit address i hi, heq, hbit network i hi]
  · intro hwithin
    refine BitVec.eq_of_getMsbD_eq fun i hi => ?_
    by_cases hlow : i < w - length
    · simp [BitVec.getMsbD_ushiftRight, hlow]
    · have hi' : i - (w - length) < length := by omega
      have hsum : i = i - (w - length) + (w - length) := by omega
      rw [hsum, hbit address _ hi', hbit network _ hi', hwithin _ hi']

end Ranges

/-- From the four octets of an IPv4 address. -/
def octets (a b c d : ℕ) : Ipv4Addr := BitVec.ofNat 32 (((a * 256 + b) * 256 + c) * 256 + d)

def NON_PUBLIC_V4 : List (Ipv4Addr × ℕ) :=
  [(octets 0 0 0 0, 8), (octets 10 0 0 0, 8), (octets 100 64 0 0, 10), (octets 127 0 0 0, 8),
    (octets 169 254 0 0, 16), (octets 172 16 0 0, 12), (octets 192 0 0 0, 24),
    (octets 192 0 2 0, 24), (octets 192 31 196 0, 24), (octets 192 52 193 0, 24),
    (octets 192 88 99 0, 24), (octets 192 168 0 0, 16), (octets 192 175 48 0, 24),
    (octets 198 18 0 0, 15), (octets 198 51 100 0, 24), (octets 203 0 113 0, 24),
    (octets 224 0 0 0, 4), (octets 240 0 0 0, 4)]

def isPublicV4 (address : Ipv4Addr) : Bool :=
  !NON_PUBLIC_V4.any fun (network, length) =>
    let mask := BitVec.allOnes 32 <<< (32 - length)
    address &&& mask == network &&& mask

/-- Reserved within global unicast. -/
def NON_PUBLIC_V6 : List (Ipv6Addr × ℕ) :=
  [(0x20010000#128 <<< 96, 23), (0x20010db8#128 <<< 96, 32), (0x2002#128 <<< 112, 16),
    (0x3fff#128 <<< 112, 20)]

def NAT64 : Ipv6Addr := 0x0064ff9b#128 <<< 96

def inRange (bits network : Ipv6Addr) (length : ℕ) : Bool :=
  let mask := BitVec.allOnes 128 <<< (128 - length)
  bits &&& mask == network &&& mask

/-- The lowest 32 bits. -/
def Ipv6Addr.low (address : Ipv6Addr) : Ipv4Addr := address.setWidth 32

/-- `Ipv6Addr::to_ipv4_mapped`: `::ffff:a.b.c.d`. -/
def Ipv6Addr.toIpv4Mapped (address : Ipv6Addr) : Option Ipv4Addr :=
  if address >>> 32 = 0xffff#128 then some (Ipv6Addr.low address) else none

def isPublicV6 (address : Ipv6Addr) : Bool :=
  match Ipv6Addr.toIpv4Mapped address with
  | some v4 => isPublicV4 v4
  | none =>
    if inRange address NAT64 96 then isPublicV4 (Ipv6Addr.low address)
    else inRange address (0x2000#128 <<< 112) 3 &&
      !NON_PUBLIC_V6.any fun (network, length) => inRange address network length

def isPublic : IpAddr → Bool
  | .v4 address => isPublicV4 address
  | .v6 address => isPublicV6 address

/-- In none of the reserved ranges. -/
def PublicV4 (address : Ipv4Addr) : Prop :=
  ∀ reserved ∈ NON_PUBLIC_V4, ¬ Within reserved.1 reserved.2 address

/-- `::ffff:0:0`, under which IPv4 addresses are mapped. -/
def MAPPED : Ipv6Addr := 0xffff#128 <<< 32

/-- In global unicast and none of the ranges reserved there, unless it carries an IPv4 address. -/
def PublicV6 (address : Ipv6Addr) : Prop :=
  if Within MAPPED 96 address ∨ Within NAT64 96 address then PublicV4 (Ipv6Addr.low address)
  else Within (0x2000#128 <<< 112) 3 address ∧
    ∀ reserved ∈ NON_PUBLIC_V6, ¬ Within reserved.1 reserved.2 address

/-- What a public address is. -/
def Public : IpAddr → Prop
  | .v4 address => PublicV4 address
  | .v6 address => PublicV6 address

section Rule

theorem inRange_iff {bits network : Ipv6Addr} {length : ℕ} (h : length ≤ 128) :
    inRange bits network length = true ↔ Within network length bits := by
  unfold inRange
  rw [beq_iff_eq]
  exact and_mask_eq_iff h bits network

theorem isPublicV4_iff (address : Ipv4Addr) : isPublicV4 address = true ↔ PublicV4 address := by
  have hlengths : ∀ reserved ∈ NON_PUBLIC_V4, reserved.2 ≤ 32 := by decide
  unfold isPublicV4
  rw [Bool.not_eq_true', List.any_eq_false]
  refine forall_congr' fun reserved => forall_congr' fun hmem => not_congr ?_
  rw [beq_iff_eq]
  exact and_mask_eq_iff (hlengths reserved hmem) address reserved.1

theorem toIpv4Mapped_eq (address : Ipv6Addr) :
    Ipv6Addr.toIpv4Mapped address =
      if Within MAPPED 96 address then some (Ipv6Addr.low address) else none := by
  have hiff : address >>> (128 - 96) = MAPPED >>> (128 - 96) ↔ Within MAPPED 96 address :=
    ushiftRight_eq_iff (by omega) address MAPPED
  have hmapped : MAPPED >>> (128 - 96) = 0xffff#128 := by decide
  rw [hmapped] at hiff
  unfold Ipv6Addr.toIpv4Mapped
  simp only [← hiff]

theorem isPublicV6_iff (address : Ipv6Addr) : isPublicV6 address = true ↔ PublicV6 address := by
  have hlengths : ∀ reserved ∈ NON_PUBLIC_V6, reserved.2 ≤ 128 := by decide
  have hnat64 : inRange address NAT64 96 = true ↔ Within NAT64 96 address :=
    inRange_iff (by omega)
  unfold isPublicV6 PublicV6
  rw [toIpv4Mapped_eq]
  by_cases hmapped : Within MAPPED 96 address
  · rw [if_pos hmapped, if_pos (Or.inl hmapped)]
    exact isPublicV4_iff _
  · rw [if_neg hmapped]
    dsimp only
    by_cases hcarries : Within NAT64 96 address
    · rw [if_pos (hnat64.mpr hcarries), if_pos (Or.inr hcarries)]
      exact isPublicV4_iff _
    · rw [if_neg (mt hnat64.mp hcarries), if_neg (not_or_intro hmapped hcarries),
        Bool.and_eq_true_iff, Bool.not_eq_true', List.any_eq_false, inRange_iff (by omega)]
      refine and_congr_right fun _ => forall_congr' fun reserved => forall_congr' fun hmem => ?_
      exact not_congr (inRange_iff (hlengths reserved hmem))

/-- The masks say what the rule says, of every address. -/
theorem isPublic_iff (address : IpAddr) : isPublic address = true ↔ Public address := by
  cases address with
  | v4 address => exact isPublicV4_iff address
  | v6 address => exact isPublicV6_iff address

end Rule

end Bokkie
