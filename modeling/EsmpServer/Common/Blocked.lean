import EsmpServer.Expr.Variable
import EsmpServer.Jmap.MailboxSet
import Mathlib

/-!
# Allowed and blocked addresses

`IpAddrMask` (utils/config/ipmask.rs) is a network: an address and the mask its family is
compared under, read from `addr/len` with a prefix length of at least 8, or from a bare
address with the full mask. `Security::parse` (common/listener/blocked.rs) reads the values of
`server.allowed-ip` and `server.blocked-ip`: a value with a `/` is a network, any other an
address for an exact set. `is_ip_allowed` and `is_ip_blocked` look a remote address up in the
set and then in the networks.

Addresses are their `u32` and `u128` values. Where an entry and the remote address are of
different families, the networks convert the remote one: an IPv4 network reads an IPv6
address as the IPv4 address it maps (`to_ipv4_mapped`) under the full mask, but as the one it
maps or embeds (`to_ipv4`, which also takes `::a.b.c.d`) under a shorter prefix; an IPv6
network reads an IPv4 address as `::ffff:a.b.c.d`.

Read as `a/32` and `a/128`, with a remote address first brought into the entry's family, an
entry covers what agrees with it on its prefix (`covers`). The networks of IPv6 entries and
the full IPv4 ones cover exactly that (`matches_v6`, `matches_v4_full`). An IPv4 prefix also
holds the IPv4-compatible addresses `::x` of its range (`matches_v4_prefix_compatible`), and
the exact set compares addresses as they are, so a bare IPv4 address does not hold its
IPv4-mapped form, which the same address with `/32` does.
-/

namespace EsmpServer.Common

open EsmpServer.Expr
open Jmap (trim)

/-! ## Addresses -/

/-- `std::net::IpAddr`, each address as its `u32` or `u128` value. -/
inductive IpAddr where
  | v4 (addr : BitVec 32)
  | v6 (addr : BitVec 128)
  deriving DecidableEq, Repr

/-- `Ipv4Addr::LOCALHOST`, `127.0.0.1`. -/
def localhostV4 : IpAddr := .v4 0x7f000001#32

/-- `Ipv6Addr::LOCALHOST`, `::1`. -/
def localhostV6 : IpAddr := .v6 1#128

/-- `Ipv6Addr::to_ipv4_mapped`: `::ffff:a.b.c.d` as `a.b.c.d`. -/
def toIpv4Mapped (ip : BitVec 128) : Option (BitVec 32) :=
  if ip.toNat / 2 ^ 32 = 0xffff then some (ip.setWidth 32) else none

/-- `Ipv6Addr::to_ipv4`: `::ffff:a.b.c.d` and `::a.b.c.d` as `a.b.c.d`. -/
def toIpv4 (ip : BitVec 128) : Option (BitVec 32) :=
  if ip.toNat / 2 ^ 32 = 0 ∨ ip.toNat / 2 ^ 32 = 0xffff then some (ip.setWidth 32) else none

/-- `Ipv4Addr::to_ipv6_mapped`: `a.b.c.d` as `::ffff:a.b.c.d`. -/
def toIpv6Mapped (ip : BitVec 32) : BitVec 128 := BitVec.ofNat 128 (0xffff * 2 ^ 32 + ip.toNat)

/-! ## Networks -/

/-- `IpAddrMask`. -/
inductive IpAddrMask where
  | v4 (addr : BitVec 32) (mask : BitVec 32)
  | v6 (addr : BitVec 128) (mask : BitVec 128)
  deriving DecidableEq, Repr

/-- `IpAddrOrMask`. -/
inductive IpAddrOrMask where
  | ip (ip : IpAddr)
  | mask (mask : IpAddrMask)
  deriving DecidableEq, Repr

/-- `IpAddrMask::matches`. -/
def IpAddrMask.matches : IpAddrMask → IpAddr → Bool
  | .v4 addr mask, remote =>
    if mask = BitVec.allOnes 32 then
      match remote with
      | .v4 remote => addr == remote
      | .v6 remote =>
        match toIpv4Mapped remote with
        | some remote => addr == remote
        | none => false
    else if mask = 0 then
      match remote with
      | .v4 _ => true
      | .v6 _ => false
    else
      match remote with
      | .v4 ip => ip &&& mask == addr &&& mask
      | .v6 ip =>
        match toIpv4 ip with
        | some ip => ip &&& mask == addr &&& mask
        | none => false
  | .v6 addr mask, remote =>
    if mask = BitVec.allOnes 128 then
      match remote with
      | .v6 remote => remote == addr
      | .v4 remote => toIpv6Mapped remote == addr
    else if mask = 0 then
      match remote with
      | .v6 _ => true
      | .v4 _ => false
    else
      match remote with
      | .v6 ip => ip &&& mask == addr &&& mask
      | .v4 ip => toIpv6Mapped ip &&& mask == addr &&& mask

/-! ## Reading entries -/

/-- `str::rsplit_once(c)`: the text before the last `c` and the text after it. -/
def rsplitOnce (c : Char) (s : String) : Option (String × String) :=
  match s.toList.reverse.span (· != c) with
  | (_, []) => none
  | (after, _ :: before) => some (String.ofList before.reverse, String.ofList after.reverse)

/-- `IpAddrMask::parse_value`, with `parseIp` for `str::parse::<IpAddr>`; `{:?}` of the value
is the value between quotes. -/
def IpAddrMask.parseValue (parseIp : String → Option IpAddr) (value : String) :
    Except String IpAddrMask :=
  let err := .error ("Invalid IP address \"" ++ value ++ "\"")
  match rsplitOnce '/' value with
  | some (addr, mask) =>
    match parseIp (trim addr), parseU32 (trim mask) with
    | some (.v4 addr), some mask =>
      if 8 ≤ mask ∧ mask ≤ 32 then .ok (.v4 addr (BitVec.allOnes 32 <<< (32 - mask))) else err
    | some (.v6 addr), some mask =>
      if 8 ≤ mask ∧ mask ≤ 128 then .ok (.v6 addr (BitVec.allOnes 128 <<< (128 - mask))) else err
    | _, _ => err
  | none =>
    match parseIp (trim value) with
    | some (.v4 addr) => .ok (.v4 addr (BitVec.allOnes 32))
    | some (.v6 addr) => .ok (.v6 addr (BitVec.allOnes 128))
    | none => err

/-- `IpAddr::parse_value`. -/
def IpAddr.parseValue (parseIp : String → Option IpAddr) (value : String) : Except String IpAddr :=
  match parseIp value with
  | some ip => .ok ip
  | none => .error ("Invalid IP address value \"" ++ value ++ "\".")

/-- `IpAddrOrMask::parse_value`. -/
def IpAddrOrMask.parseValue (parseIp : String → Option IpAddr) (ip : String) :
    Except String IpAddrOrMask :=
  if '/' ∈ ip.toList then (IpAddrMask.parseValue parseIp ip).map .mask
  else (IpAddr.parseValue parseIp ip).map .ip

/-- What one key's values give: the addresses (an `AHashSet`), the networks, and the parse
errors reported under the key. -/
structure IpValues where
  addresses : List IpAddr
  networks : List IpAddrMask
  errors : List (String × String)

/-- One value of the loop `Security::parse` and `BlockedIps::parse` run over a key's values. -/
def IpValues.push (parseIp : String → Option IpAddr) (key : String) (acc : IpValues) (value : String) :
    IpValues :=
  match IpAddrOrMask.parseValue parseIp value with
  | .ok (.ip ip) => { acc with addresses := acc.addresses.insert ip }
  | .ok (.mask ip) => { acc with networks := acc.networks ++ [ip] }
  | .error err => { acc with errors := acc.errors ++ [(key, err)] }

/-- That loop over all of a key's values. -/
def parseIpValues (parseIp : String → Option IpAddr) (key : String) (values : List String) : IpValues :=
  values.foldl (IpValues.push parseIp key) ⟨[], [], []⟩

/-- `BLOCKED_IP_KEY` and `ALLOWED_IP_KEY`. -/
def blockedIpKey : String := "server.blocked-ip"

def allowedIpKey : String := "server.allowed-ip"

/-- `BlockedIps`. -/
structure BlockedIps where
  blockedIpAddresses : List IpAddr
  blockedIpNetworks : List IpAddrMask

/-- `BlockedIps::parse`, with the errors it reports. -/
def BlockedIps.parse (parseIp : String → Option IpAddr) (values : List String) :
    BlockedIps × List (String × String) :=
  let blocked := parseIpValues parseIp blockedIpKey values
  (⟨blocked.addresses, blocked.networks⟩, blocked.errors)

/-- The fields of `Security` that `is_ip_allowed` and `is_ip_blocked` read. -/
structure Security where
  blockedIpNetworks : List IpAddrMask
  hasBlockedNetworks : Bool
  allowedIpAddresses : List IpAddr
  allowedIpNetworks : List IpAddrMask
  hasAllowedNetworks : Bool

/-- `Security::parse` over the values of `server.allowed-ip` and `server.blocked-ip`, with the
errors it reports; without the `test_mode` feature the loopback addresses are always
allowed. -/
def Security.parse (parseIp : String → Option IpAddr) (allowed blocked : List String) (testMode : Bool) :
    Security × List (String × String) :=
  let allowedIps := parseIpValues parseIp allowedIpKey allowed
  let blocked := BlockedIps.parse parseIp blocked
  let allowedIpAddresses :=
    if testMode then allowedIps.addresses
    else (allowedIps.addresses.insert localhostV4).insert localhostV6
  ({ blockedIpNetworks := blocked.1.blockedIpNetworks
     hasBlockedNetworks := !blocked.1.blockedIpNetworks.isEmpty
     allowedIpAddresses
     allowedIpNetworks := allowedIps.networks
     hasAllowedNetworks := !allowedIps.networks.isEmpty }, allowedIps.errors ++ blocked.2)

/-- `Server::is_ip_allowed`. -/
def Security.isIpAllowed (security : Security) (ip : IpAddr) : Bool :=
  security.allowedIpAddresses.contains ip ||
    (security.hasAllowedNetworks && security.allowedIpNetworks.any (·.matches ip))

/-- `Server::is_ip_blocked`; `blockedIps` is the server's current set of blocked addresses. -/
def Security.isIpBlocked (security : Security) (blockedIps : List IpAddr) (ip : IpAddr) : Bool :=
  blockedIps.contains ip ||
    (security.hasBlockedNetworks && security.blockedIpNetworks.any (·.matches ip))

/-! ## What an entry covers -/

/-- A remote address in an IPv4 entry's family: itself, or the address an IPv4-mapped IPv6
address maps. -/
def IpAddr.canonV4 : IpAddr → Option (BitVec 32)
  | .v4 ip => some ip
  | .v6 ip => toIpv4Mapped ip

/-- A remote address in an IPv6 entry's family: an IPv4 address as `::ffff:a.b.c.d`. -/
def IpAddr.canonV6 : IpAddr → BitVec 128
  | .v4 ip => toIpv6Mapped ip
  | .v6 ip => ip

/-- The entry `a/n` covers the addresses that, in `a`'s family, agree with `a` on their first
`n` bits. -/
def covers : IpAddr → ℕ → IpAddr → Bool
  | .v4 a, n, r =>
    match r.canonV4 with
    | some x => x >>> (32 - n) == a >>> (32 - n)
    | none => false
  | .v6 a, n, r => r.canonV6 >>> (128 - n) == a >>> (128 - n)

/-- An IPv4-compatible IPv6 address `::a.b.c.d`, `::` and `::1` among them. -/
def IpAddr.IsCompatible : IpAddr → Prop
  | .v4 _ => False
  | .v6 ip => ip.toNat < 2 ^ 32

/-! ## Prefixes of a bit vector -/

section Prefix

variable {w k : ℕ}

theorem and_allOnes_shiftLeft_eq_iff (x y : BitVec w) :
    x &&& (BitVec.allOnes w <<< k) = y &&& (BitVec.allOnes w <<< k) ↔ x >>> k = y >>> k := by
  constructor
  · intro h
    apply BitVec.eq_of_getLsbD_eq
    intro j hj
    have hbit := congrArg (fun v => v.getLsbD (k + j)) h
    simp only [BitVec.getLsbD_and, BitVec.getLsbD_shiftLeft, BitVec.getLsbD_allOnes] at hbit
    simp only [BitVec.getLsbD_ushiftRight]
    by_cases hkj : k + j < w
    · have hnotLow : ¬ k + j < k := by omega
      simpa [hkj, hnotLow, hj] using hbit
    · simp [BitVec.getLsbD_of_ge _ _ (by omega : w ≤ k + j)]
  · intro h
    apply BitVec.eq_of_getLsbD_eq
    intro i hi
    simp only [BitVec.getLsbD_and, BitVec.getLsbD_shiftLeft, BitVec.getLsbD_allOnes]
    by_cases hki : k ≤ i
    · have hbit := congrArg (fun v => v.getLsbD (i - k)) h
      simp only [BitVec.getLsbD_ushiftRight, Nat.add_sub_cancel' hki] at hbit
      rw [hbit]
    · simp [show i < k by omega]

theorem beq_and_allOnes_shiftLeft (x y : BitVec w) :
    (x &&& (BitVec.allOnes w <<< k) == y &&& (BitVec.allOnes w <<< k)) = (x >>> k == y >>> k) := by
  rw [Bool.eq_iff_iff, beq_iff_eq, beq_iff_eq, and_allOnes_shiftLeft_eq_iff]

theorem allOnes_shiftLeft_ne_allOnes (hk : 0 < k) (hkw : k < w) :
    BitVec.allOnes w <<< k ≠ BitVec.allOnes w := by
  intro h
  have hbit := congrArg (fun v => v.getLsbD 0) h
  simp only [BitVec.getLsbD_shiftLeft, BitVec.getLsbD_allOnes] at hbit
  simp [hk, show 0 < w by omega] at hbit

theorem allOnes_shiftLeft_ne_zero (hkw : k < w) : BitVec.allOnes w <<< k ≠ 0 := by
  intro h
  have hbit := congrArg (fun v => v.getLsbD (w - 1)) h
  simp only [BitVec.getLsbD_shiftLeft, BitVec.getLsbD_allOnes] at hbit
  simp [show w - 1 < w by omega, show ¬ w - 1 < k by omega] at hbit
  omega

end Prefix

/-! ## Addresses across families -/

theorem toNat_toIpv6Mapped (x : BitVec 32) : (toIpv6Mapped x).toNat = 0xffff * 2 ^ 32 + x.toNat := by
  have hx := x.isLt
  simp only [toIpv6Mapped, BitVec.toNat_ofNat]
  omega

@[simp]
theorem toIpv4Mapped_toIpv6Mapped (x : BitVec 32) : toIpv4Mapped (toIpv6Mapped x) = some x := by
  have hx := x.isLt
  have hval := toNat_toIpv6Mapped x
  have hlow : (toIpv6Mapped x).setWidth 32 = x := by
    apply BitVec.eq_of_toNat_eq
    simp only [BitVec.toNat_setWidth, hval]
    omega
  simp only [toIpv4Mapped, hval, hlow]
  rw [if_pos (by omega)]

theorem toIpv4Mapped_of_lt {ip : BitVec 128} (h : ip.toNat < 2 ^ 32) : toIpv4Mapped ip = none := by
  simp only [toIpv4Mapped]
  rw [if_neg (by omega)]

@[simp]
theorem toIpv4_setWidth (x : BitVec 32) : toIpv4 (x.setWidth 128) = some x := by
  have hval : (x.setWidth 128).toNat = x.toNat := by
    simp only [BitVec.toNat_setWidth]
    omega
  simp only [toIpv4, hval, BitVec.setWidth_setWidth_of_le _ (by omega : 32 ≤ 128), BitVec.setWidth_eq]
  rw [if_pos (Or.inl (by omega))]

theorem toIpv4_of_not_lt {ip : BitVec 128} (h : ¬ ip.toNat < 2 ^ 32) : toIpv4 ip = toIpv4Mapped ip := by
  have hne : ip.toNat / 2 ^ 32 ≠ 0 := by omega
  simp only [toIpv4, toIpv4Mapped, hne, false_or]

/-! ## What a network holds -/

theorem matches_v4_full (a : BitVec 32) (r : IpAddr) :
    (IpAddrMask.v4 a (BitVec.allOnes 32)).matches r = covers (.v4 a) 32 r := by
  cases r with
  | v4 x => simp [IpAddrMask.matches, covers, IpAddr.canonV4, eq_comm]
  | v6 y =>
    simp only [IpAddrMask.matches, covers, IpAddr.canonV4, if_pos]
    cases toIpv4Mapped y <;> simp [eq_comm]

section PrefixV4

variable {n : ℕ} (a : BitVec 32)

theorem matches_v4_partialMask (hn : 8 ≤ n) (hn' : n < 32) (r : IpAddr) :
    (IpAddrMask.v4 a (BitVec.allOnes 32 <<< (32 - n))).matches r =
      match r with
      | .v4 x => x >>> (32 - n) == a >>> (32 - n)
      | .v6 y =>
        match toIpv4 y with
        | some x => x >>> (32 - n) == a >>> (32 - n)
        | none => false := by
  have hfull := allOnes_shiftLeft_ne_allOnes (w := 32) (k := 32 - n) (by omega) (by omega)
  have hzero := allOnes_shiftLeft_ne_zero (w := 32) (k := 32 - n) (by omega)
  cases r with
  | v4 x => simp only [IpAddrMask.matches, if_neg hfull, if_neg hzero, beq_and_allOnes_shiftLeft]
  | v6 y =>
    simp only [IpAddrMask.matches, if_neg hfull, if_neg hzero]
    cases toIpv4 y <;> simp only [beq_and_allOnes_shiftLeft]

theorem matches_v4_prefix_of_not_compatible (hn : 8 ≤ n) (hn' : n < 32) {r : IpAddr}
    (hr : ¬ r.IsCompatible) :
    (IpAddrMask.v4 a (BitVec.allOnes 32 <<< (32 - n))).matches r = covers (.v4 a) n r := by
  rw [matches_v4_partialMask a hn hn']
  cases r with
  | v4 x => rfl
  | v6 y =>
    simp only [IpAddr.IsCompatible] at hr
    simp only [covers, IpAddr.canonV4, toIpv4_of_not_lt hr]

theorem matches_v4_prefix_compatible (hn : 8 ≤ n) (hn' : n < 32) (x : BitVec 32) :
    (IpAddrMask.v4 a (BitVec.allOnes 32 <<< (32 - n))).matches (.v6 (x.setWidth 128)) =
        (x >>> (32 - n) == a >>> (32 - n)) ∧
      covers (.v4 a) n (.v6 (x.setWidth 128)) = false := by
  have hlt : (x.setWidth 128).toNat < 2 ^ 32 := by
    simp only [BitVec.toNat_setWidth]
    omega
  refine ⟨by simp only [matches_v4_partialMask a hn hn', toIpv4_setWidth], ?_⟩
  simp only [covers, IpAddr.canonV4, toIpv4Mapped_of_lt hlt]

/-- `0.0.0.0/8` holds `::1`. -/
example : (IpAddrMask.v4 0#32 (BitVec.allOnes 32 <<< 24)).matches (.v6 1#128) = true := by decide

end PrefixV4

theorem matches_v6 {n : ℕ} (a : BitVec 128) (hn : 8 ≤ n) (hn' : n ≤ 128) (r : IpAddr) :
    (IpAddrMask.v6 a (BitVec.allOnes 128 <<< (128 - n))).matches r = covers (.v6 a) n r := by
  rcases Nat.lt_or_eq_of_le hn' with hlt | rfl
  · have hfull := allOnes_shiftLeft_ne_allOnes (w := 128) (k := 128 - n) (by omega) (by omega)
    have hzero := allOnes_shiftLeft_ne_zero (w := 128) (k := 128 - n) (by omega)
    cases r <;>
      simp only [IpAddrMask.matches, if_neg hfull, if_neg hzero, beq_and_allOnes_shiftLeft, covers,
        IpAddr.canonV6]
  · cases r <;> simp [IpAddrMask.matches, covers, IpAddr.canonV6]

/-! ## Reading a network -/

theorem isWhitespace_of_isDigit {c : Char} (h : c.isDigit = true) : c.isWhitespace = false := by
  simp only [Char.isDigit, Char.isWhitespace, Bool.and_eq_true, decide_eq_true_eq] at h ⊢
  obtain ⟨hlo, _⟩ := h
  simp only [Bool.or_eq_false_iff, decide_eq_false_iff_not]
  refine ⟨⟨⟨?_, ?_⟩, ?_⟩, ?_⟩ <;> rintro rfl <;> exact absurd hlo (by decide)

theorem dropWhile_eq_self_of_forall {α : Type} {p : α → Bool} {l : List α} (h : ∀ a ∈ l, p a = false) :
    l.dropWhile p = l := by
  cases l with
  | nil => rfl
  | cons a l => simp [h a List.mem_cons_self]

theorem trim_toString (n : ℕ) : trim (toString n) = toString n := by
  have hdigits : ∀ c ∈ (toString n).toList, c.isWhitespace = false := by
    intro c hc
    have hc' : c ∈ Nat.toDigits 10 n := by simpa using hc
    exact isWhitespace_of_isDigit (Nat.isDigit_of_mem_toDigits (by decide) (by decide) hc')
  have hrev : ∀ c ∈ (toString n).toList.reverse, c.isWhitespace = false := by simpa using hdigits
  rw [trim, dropWhile_eq_self_of_forall hdigits, dropWhile_eq_self_of_forall hrev, List.reverse_reverse,
    String.ofList_toList]

theorem slash_not_mem_toString (n : ℕ) : '/' ∉ (toString n).toList := by
  intro h
  have h' : '/' ∈ Nat.toDigits 10 n := by simpa using h
  exact absurd (Nat.isDigit_of_mem_toDigits (by decide) (by decide) h') (by decide)

theorem rsplitOnce_append (s t : String) (ht : '/' ∉ t.toList) :
    rsplitOnce '/' (s ++ "/" ++ t) = some (s, t) := by
  have hrev : (s ++ "/" ++ t).toList.reverse = t.toList.reverse ++ '/' :: s.toList.reverse := by simp
  have hafter : ∀ c ∈ t.toList.reverse, (c != '/') = true := by
    intro c hc
    simp only [List.mem_reverse] at hc
    simp only [bne_iff_ne, ne_eq]
    rintro rfl
    exact ht hc
  rw [rsplitOnce, hrev, List.span_eq_takeWhile_dropWhile, List.takeWhile_append_of_pos hafter,
    List.dropWhile_append_of_pos hafter]
  simp

theorem parseU32_trim_toString {n : ℕ} (h : n < 2 ^ 32) : parseU32 (trim (toString n)) = some n := by
  rw [trim_toString]
  exact parseU32_toDigits h

section Network

variable {parseIp : String → Option IpAddr}

theorem IpAddrMask.parseValue_v4 {text : String} {a : BitVec 32} {n : ℕ}
    (hp : parseIp (trim text) = some (.v4 a)) (hn : 8 ≤ n) (hn' : n ≤ 32) :
    IpAddrMask.parseValue parseIp (text ++ "/" ++ toString n) =
      .ok (.v4 a (BitVec.allOnes 32 <<< (32 - n))) := by
  simp only [IpAddrMask.parseValue, rsplitOnce_append text _ (slash_not_mem_toString n), hp,
    parseU32_trim_toString (by omega : n < 2 ^ 32), if_pos (⟨hn, hn'⟩ : 8 ≤ n ∧ n ≤ 32)]

theorem IpAddrOrMask.parseValue_v4 {text : String} {a : BitVec 32} {n : ℕ}
    (hp : parseIp (trim text) = some (.v4 a)) (hn : 8 ≤ n) (hn' : n ≤ 32) :
    IpAddrOrMask.parseValue parseIp (text ++ "/" ++ toString n) =
      .ok (.mask (.v4 a (BitVec.allOnes 32 <<< (32 - n)))) := by
  have hslash : '/' ∈ (text ++ "/" ++ toString n).toList := by simp
  rw [IpAddrOrMask.parseValue, if_pos hslash, IpAddrMask.parseValue_v4 hp hn hn']
  rfl

theorem IpAddrOrMask.parseValue_ip {text : String} {ip : IpAddr} (hslash : '/' ∉ text.toList)
    (hp : parseIp text = some ip) : IpAddrOrMask.parseValue parseIp text = .ok (.ip ip) := by
  rw [IpAddrOrMask.parseValue, if_neg hslash, IpAddr.parseValue, hp]
  rfl

end Network

/-! ## The values of a key -/

section Values

variable (parseIp : String → Option IpAddr) (key : String)

theorem mem_addresses_push (acc : IpValues) (value : String) (ip : IpAddr) :
    ip ∈ (acc.push parseIp key value).addresses ↔
      ip ∈ acc.addresses ∨ IpAddrOrMask.parseValue parseIp value = .ok (.ip ip) := by
  unfold IpValues.push
  split <;> rename_i h <;> simp [h, List.mem_insert_iff, eq_comm, or_comm]

theorem mem_networks_push (acc : IpValues) (value : String) (m : IpAddrMask) :
    m ∈ (acc.push parseIp key value).networks ↔
      m ∈ acc.networks ∨ IpAddrOrMask.parseValue parseIp value = .ok (.mask m) := by
  unfold IpValues.push
  split <;> rename_i h <;> simp [h, eq_comm]

theorem mem_addresses_foldl (values : List String) (acc : IpValues) (ip : IpAddr) :
    ip ∈ (values.foldl (IpValues.push parseIp key) acc).addresses ↔
      ip ∈ acc.addresses ∨ ∃ v ∈ values, IpAddrOrMask.parseValue parseIp v = .ok (.ip ip) := by
  induction values generalizing acc with
  | nil => simp
  | cons v vs ih =>
    rw [List.foldl_cons, ih, mem_addresses_push]
    simp only [List.mem_cons, exists_eq_or_imp]
    tauto

theorem mem_networks_foldl (values : List String) (acc : IpValues) (m : IpAddrMask) :
    m ∈ (values.foldl (IpValues.push parseIp key) acc).networks ↔
      m ∈ acc.networks ∨ ∃ v ∈ values, IpAddrOrMask.parseValue parseIp v = .ok (.mask m) := by
  induction values generalizing acc with
  | nil => simp
  | cons v vs ih =>
    rw [List.foldl_cons, ih, mem_networks_push]
    simp only [List.mem_cons, exists_eq_or_imp]
    tauto

theorem mem_addresses_parseIpValues (values : List String) (ip : IpAddr) :
    ip ∈ (parseIpValues parseIp key values).addresses ↔
      ∃ v ∈ values, IpAddrOrMask.parseValue parseIp v = .ok (.ip ip) := by
  simp [parseIpValues, mem_addresses_foldl]

theorem mem_networks_parseIpValues (values : List String) (m : IpAddrMask) :
    m ∈ (parseIpValues parseIp key values).networks ↔
      ∃ v ∈ values, IpAddrOrMask.parseValue parseIp v = .ok (.mask m) := by
  simp [parseIpValues, mem_networks_foldl]

end Values

/-! ## Allowed and blocked addresses -/

theorem not_isEmpty_and_any {α : Type} (l : List α) (p : α → Bool) : (!l.isEmpty && l.any p) = l.any p := by
  cases l <;> rfl

section Security

variable (parseIp : String → Option IpAddr) (allowed blocked : List String) (testMode : Bool)

theorem isIpAllowed_parse_iff (r : IpAddr) :
    (Security.parse parseIp allowed blocked testMode).1.isIpAllowed r = true ↔
      (testMode = false ∧ (r = localhostV4 ∨ r = localhostV6)) ∨
        (∃ v ∈ allowed, IpAddrOrMask.parseValue parseIp v = .ok (.ip r)) ∨
          ∃ v ∈ allowed, ∃ m, IpAddrOrMask.parseValue parseIp v = .ok (.mask m) ∧ m.matches r = true := by
  have hnetworks : (∃ m ∈ (parseIpValues parseIp allowedIpKey allowed).networks, m.matches r = true) ↔
      ∃ v ∈ allowed, ∃ m, IpAddrOrMask.parseValue parseIp v = .ok (.mask m) ∧ m.matches r = true := by
    simp only [mem_networks_parseIpValues]
    constructor
    · rintro ⟨m, ⟨v, hv, hparse⟩, hm⟩
      exact ⟨v, hv, m, hparse, hm⟩
    · rintro ⟨v, hv, m, hparse, hm⟩
      exact ⟨m, ⟨v, hv, hparse⟩, hm⟩
  simp only [Security.parse, Security.isIpAllowed, not_isEmpty_and_any, Bool.or_eq_true, List.any_eq_true,
    hnetworks, List.contains_iff_mem]
  cases testMode
  · simp only [Bool.false_eq_true, if_false, List.mem_insert_iff, mem_addresses_parseIpValues, true_and,
      or_assoc]
    exact or_left_comm
  · simp [mem_addresses_parseIpValues]

theorem isIpBlocked_parse_iff (blockedIps : List IpAddr) (r : IpAddr) :
    (Security.parse parseIp allowed blocked testMode).1.isIpBlocked blockedIps r = true ↔
      r ∈ blockedIps ∨
        ∃ v ∈ blocked, ∃ m, IpAddrOrMask.parseValue parseIp v = .ok (.mask m) ∧ m.matches r = true := by
  simp only [Security.parse, BlockedIps.parse, Security.isIpBlocked, not_isEmpty_and_any, Bool.or_eq_true,
    List.any_eq_true, List.contains_iff_mem, mem_networks_parseIpValues]
  constructor
  · rintro (hr | ⟨m, ⟨v, hv, hparse⟩, hm⟩)
    · exact Or.inl hr
    · exact Or.inr ⟨v, hv, m, hparse, hm⟩
  · rintro (hr | ⟨v, hv, m, hparse, hm⟩)
    · exact Or.inl hr
    · exact Or.inr ⟨m, ⟨v, hv, hparse⟩, hm⟩

end Security

/-! ## Networks against their entries -/

/-- The network `parse_value` builds for the entry `a/n`. -/
def IpAddr.network : IpAddr → ℕ → IpAddrMask
  | .v4 a, n => .v4 a (BitVec.allOnes 32 <<< (32 - n))
  | .v6 a, n => .v6 a (BitVec.allOnes 128 <<< (128 - n))

/-- The prefix lengths `parse_value` accepts for an address's family. -/
def IpAddr.PrefixLen : IpAddr → ℕ → Prop
  | .v4 _, n => 8 ≤ n ∧ n ≤ 32
  | .v6 _, n => 8 ≤ n ∧ n ≤ 128

theorem IpAddrMask.parseValue_eq_ok {parseIp : String → Option IpAddr} {value : String} {m : IpAddrMask}
    (h : IpAddrMask.parseValue parseIp value = .ok m) : ∃ (a : IpAddr) (n : ℕ), a.PrefixLen n ∧ m = a.network n := by
  unfold IpAddrMask.parseValue at h
  split at h
  · split at h
    · split at h
      · cases h
        exact ⟨IpAddr.v4 _, _, ‹_›, rfl⟩
      · cases h
    · split at h
      · cases h
        exact ⟨IpAddr.v6 _, _, ‹_›, rfl⟩
      · cases h
    · cases h
  · split at h
    · cases h
      exact ⟨IpAddr.v4 ‹_›, 32, ⟨by omega, le_refl _⟩, by simp [IpAddr.network]⟩
    · cases h
      exact ⟨IpAddr.v6 ‹_›, 128, ⟨by omega, le_refl _⟩, by simp [IpAddr.network]⟩
    · cases h

theorem IpAddrOrMask.parseValue_eq_mask {parseIp : String → Option IpAddr} {value : String}
    {m : IpAddrMask} (h : IpAddrOrMask.parseValue parseIp value = .ok (.mask m)) :
    IpAddrMask.parseValue parseIp value = .ok m := by
  unfold IpAddrOrMask.parseValue at h
  split_ifs at h
  · cases hm : IpAddrMask.parseValue parseIp value <;> simp_all [Except.map]
  · cases hm : IpAddr.parseValue parseIp value <;> simp_all [Except.map]

theorem matches_network {a : IpAddr} {n : ℕ} (hn : a.PrefixLen n) {r : IpAddr} (hr : ¬ r.IsCompatible) :
    (a.network n).matches r = covers a n r := by
  cases a with
  | v4 a =>
    obtain ⟨hlo, hhi⟩ := hn
    rcases Nat.lt_or_eq_of_le hhi with hlt | rfl
    · exact matches_v4_prefix_of_not_compatible a hlo hlt hr
    · simpa [IpAddr.network] using matches_v4_full a r
  | v6 a => exact matches_v6 a hn.1 hn.2 r

theorem isIpBlocked_networks_iff_covers (parseIp : String → Option IpAddr) (allowed blocked : List String)
    (testMode : Bool) {r : IpAddr} (hr : ¬ r.IsCompatible) :
    (Security.parse parseIp allowed blocked testMode).1.isIpBlocked [] r = true ↔
      ∃ v ∈ blocked, ∃ a n, IpAddrOrMask.parseValue parseIp v = .ok (.mask (a.network n)) ∧ a.PrefixLen n ∧
        covers a n r = true := by
  rw [isIpBlocked_parse_iff]
  simp only [List.not_mem_nil, false_or]
  constructor
  · rintro ⟨v, hv, m, hparse, hm⟩
    obtain ⟨a, n, hn, rfl⟩ := IpAddrMask.parseValue_eq_ok (IpAddrOrMask.parseValue_eq_mask hparse)
    exact ⟨v, hv, a, n, hparse, hn, matches_network hn hr ▸ hm⟩
  · rintro ⟨v, hv, a, n, hparse, hn, hcovers⟩
    exact ⟨v, hv, a.network n, hparse, (matches_network hn hr).trans hcovers⟩

theorem toIpv6Mapped_ne_one (x : BitVec 32) : toIpv6Mapped x ≠ 1#128 := by
  intro h
  have hval := toNat_toIpv6Mapped x
  rw [h] at hval
  simp only [BitVec.toNat_ofNat] at hval
  omega

/-- A bare IPv4 address does not allow its IPv4-mapped form, which its `/32` covers; an IPv4
network of a prefix shorter than 32 allows and blocks the IPv4-compatible addresses of its
range, which it does not cover. -/
theorem isIpAllowed_differs_from_covers (parseIp : String → Option IpAddr) (testMode : Bool) :
    (∀ (text : String) (a : BitVec 32), '/' ∉ text.toList → parseIp text = some (.v4 a) →
      (Security.parse parseIp [text] [] testMode).1.isIpAllowed (.v6 (toIpv6Mapped a)) = false ∧
        covers (.v4 a) 32 (.v6 (toIpv6Mapped a)) = true) ∧
      ∀ (text : String) (a x : BitVec 32) (n : ℕ), parseIp (trim text) = some (.v4 a) → 8 ≤ n → n < 32 →
        x >>> (32 - n) = a >>> (32 - n) →
        (Security.parse parseIp [text ++ "/" ++ toString n] [] testMode).1.isIpAllowed
            (.v6 (x.setWidth 128)) = true ∧
          (Security.parse parseIp [] [text ++ "/" ++ toString n] testMode).1.isIpBlocked []
            (.v6 (x.setWidth 128)) = true ∧
          covers (.v4 a) n (.v6 (x.setWidth 128)) = false := by
  constructor
  · intro text a hslash hp
    have hloopback : IpAddr.v6 (toIpv6Mapped a) ≠ localhostV6 := by
      simpa [localhostV6] using toIpv6Mapped_ne_one a
    refine ⟨?_, by simp [covers, IpAddr.canonV4]⟩
    rw [Bool.eq_false_iff, ne_eq, isIpAllowed_parse_iff]
    simp [IpAddrOrMask.parseValue_ip hslash hp, localhostV4, hloopback]
  · intro text a x n hp hn hn' hagree
    have hparse := IpAddrOrMask.parseValue_v4 hp hn hn'.le
    obtain ⟨hmatch, hcovers⟩ := matches_v4_prefix_compatible a hn hn' x
    have hholds : (IpAddrMask.v4 a (BitVec.allOnes 32 <<< (32 - n))).matches (.v6 (x.setWidth 128)) = true := by
      rw [hmatch, hagree, beq_self_eq_true]
    refine ⟨?_, ?_, hcovers⟩
    · rw [isIpAllowed_parse_iff]
      exact Or.inr (Or.inr ⟨_, List.mem_singleton_self _, _, hparse, hholds⟩)
    · rw [isIpBlocked_parse_iff]
      exact Or.inr ⟨_, List.mem_singleton_self _, _, hparse, hholds⟩

/-- With `10.0.0.1` read as itself: the bare address does not allow `::ffff:10.0.0.1`, and
`10.0.0.1/8` allows `::10.0.0.1`. -/
theorem isIpAllowed_differs_from_covers_ten :
    (Security.parse (fun s => if s = "10.0.0.1" then some (.v4 0x0a000001#32) else none) ["10.0.0.1"] []
        false).1.isIpAllowed (.v6 (toIpv6Mapped 0x0a000001#32)) = false ∧
      (Security.parse (fun s => if s = "10.0.0.1" then some (.v4 0x0a000001#32) else none)
        ["10.0.0.1" ++ "/" ++ toString 8] [] false).1.isIpAllowed (.v6 ((0x0a000001#32).setWidth 128)) = true := by
  have h := isIpAllowed_differs_from_covers (fun s => if s = "10.0.0.1" then some (.v4 0x0a000001#32) else none)
    false
  exact ⟨(h.1 "10.0.0.1" _ (by decide) (by simp)).1,
    (h.2 "10.0.0.1" _ _ 8 (by decide) (by decide) (by decide) rfl).1⟩

end EsmpServer.Common
