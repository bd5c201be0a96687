import XrayRs.BitPrefix
import XrayRs.RouteTable

/-! # What a CIDR block contains

`prefix_match` (`kernel/src/route/rule.rs`) compares whole bytes, and the upper bits of
the one in which the prefix ends by a mask.  For a block that `Cidr::parse` accepts this
is one division of the two addresses, read as numbers (`cidr_contains_iff`). -/

namespace XrayRs

open BitPrefix ByteWords

/-- The octets of an address. -/
def IpAddr.octets : IpAddr → Bytes
  | .v4 ip => ip.toList
  | .v6 ip => ip.toList

/-- The bits of an address of this family. -/
def IpAddr.width (a : IpAddr) : Nat := if a.isIpv4 then 32 else 128

/-- An address as an integer of `width` bits. -/
def IpAddr.toNat (a : IpAddr) : Nat := natOfBe a.octets

namespace IpAddr

theorem width_eq (a : IpAddr) : a.width = 8 * a.octets.length := by
  cases a with
  | v4 ip => simp [width, isIpv4, octets]
  | v6 ip => simp [width, isIpv4, octets]

theorem length_octets {a b : IpAddr} (h : a.isIpv4 = b.isIpv4) :
    a.octets.length = b.octets.length := by
  have ha := a.width_eq
  have hb := b.width_eq
  have hwidth : a.width = b.width := by rw [width, width, h]
  omega

theorem octets_inj {a b : IpAddr} (h : a.isIpv4 = b.isIpv4) (hoctets : a.octets = b.octets) :
    a = b := by
  cases a with
  | v4 ip =>
    cases b with
    | v4 ip' => exact congrArg v4 (Vector.toList_inj.mp hoctets)
    | v6 ip' => cases h
  | v6 ip =>
    cases b with
    | v4 ip' => cases h
    | v6 ip' => exact congrArg v6 (Vector.toList_inj.mp hoctets)

end IpAddr

/-- **The loop of `prefix_match`** compares a prefix. -/
theorem prefixMatch_iff {net ip : Bytes} (hlen : net.length = ip.length) {bits : Nat}
    (hbits : bits ≤ 8 * net.length) : prefixMatch net ip bits = true ↔ SamePrefix bits net ip := by
  -- each byte takes eight bits off the prefix, the last one fewer
  induction net generalizing ip bits with
  | nil =>
    obtain rfl : bits = 0 := Nat.le_zero.mp hbits
    obtain rfl : ip = [] := List.length_eq_zero_iff.mp hlen.symm
    exact ⟨fun _ => samePrefix_zero [] [], fun _ => rfl⟩
  | cons a net ih =>
    obtain ⟨b, ip, rfl⟩ : ∃ b ip', ip = b :: ip' := List.exists_cons_of_length_eq_add_one hlen.symm
    have hlen' : net.length = ip.length := Nat.succ.inj hlen
    rw [List.length_cons, Nat.mul_succ] at hbits
    unfold prefixMatch
    by_cases hzero : bits = 0
    · subst hzero
      exact ⟨fun _ => samePrefix_zero _ _, fun _ => rfl⟩
    rw [if_neg hzero]
    by_cases hbyte : 8 ≤ bits
    · rw [if_pos hbyte, Bool.and_eq_true, beq_iff_eq, ih hlen' (by omega),
        samePrefix_byte hlen' hbyte hbits]
    · rw [if_neg hbyte, samePrefix_mask hlen' (by omega) (by omega)]
      exact beq_iff_eq

namespace Cidr

/-- `Cidr::parse` bounds the prefix by the family of the address. -/
theorem prefixLen_le_of_parse {s : List Char} {c : Cidr} (h : Cidr.parse s = some c) :
    c.prefixLen.toNat ≤ c.addr.width := by
  unfold Cidr.parse at h
  obtain ⟨addr, -, hprefix⟩ := Option.bind_eq_some_iff.mp h
  have hwidth : addr.width < 256 := by
    unfold IpAddr.width
    split <;> decide
  have hofNat : ∀ n ≤ addr.width, (UInt8.ofNat n).toNat ≤ addr.width := by
    intro n hn
    rw [UInt8.toNat_ofNat', Nat.mod_eq_of_lt (by omega)]
    exact hn
  cases hsplit : Text.splitOnce '/' s with
  | some parts =>
    simp only [hsplit] at hprefix
    obtain ⟨n, hn, rfl⟩ := Option.map_eq_some_iff.mp hprefix
    exact hofNat n (of_decide_eq_true (Option.filter_eq_some_iff.mp hn).2)
  | none =>
    simp only [hsplit] at hprefix
    obtain rfl := Option.some.inj hprefix
    exact hofNat _ (Nat.le_refl _)

theorem contains_eq (c : Cidr) (ip : IpAddr) :
    c.contains ip =
      (ip.isIpv4 == c.addr.isIpv4 && prefixMatch c.addr.octets ip.octets c.prefixLen.toNat) := by
  obtain ⟨addr, len⟩ := c
  cases addr <;> cases ip <;> simp [contains, IpAddr.isIpv4, IpAddr.octets]

/-- The addresses of a block: those of its family with the same prefix. -/
theorem contains_iff_samePrefix {c : Cidr} (hc : c.prefixLen.toNat ≤ c.addr.width) (ip : IpAddr) :
    c.contains ip = true ↔
      ip.isIpv4 = c.addr.isIpv4 ∧ SamePrefix c.prefixLen.toNat c.addr.octets ip.octets := by
  rw [contains_eq, Bool.and_eq_true, beq_iff_eq]
  refine and_congr_right fun hfamily => ?_
  rw [IpAddr.width_eq] at hc
  exact prefixMatch_iff (IpAddr.length_octets hfamily).symm hc

end Cidr

/-- **Membership in a CIDR block.**  A block contains the addresses of its own family that
agree with it, as integers, after a division by `2 ^ (width - prefix)`.  So a longer prefix
of an address accepts fewer addresses, the prefix 0 accepts the whole family, and the full
prefix one address. -/
theorem cidr_contains_iff {s : List Char} {c : Cidr} (h : Cidr.parse s = some c) :
    (∀ ip, c.contains ip = true ↔ ip.isIpv4 = c.addr.isIpv4 ∧
      c.addr.toNat / 2 ^ (c.addr.width - c.prefixLen.toNat) =
        ip.toNat / 2 ^ (c.addr.width - c.prefixLen.toNat)) ∧
    (∀ s' c', Cidr.parse s' = some c' → c'.addr = c.addr → c.prefixLen ≤ c'.prefixLen →
      ∀ ip, c'.contains ip = true → c.contains ip = true) ∧
    (c.prefixLen = 0 → ∀ ip, c.contains ip = true ↔ ip.isIpv4 = c.addr.isIpv4) ∧
    (c.prefixLen.toNat = c.addr.width → ∀ ip, c.contains ip = true ↔ ip = c.addr) := by
  have hc := Cidr.prefixLen_le_of_parse h
  have hiff := Cidr.contains_iff_samePrefix hc
  refine ⟨fun ip => ?_, fun s' c' h' haddr hle ip hip => ?_, fun hzero ip => ?_, fun hfull ip => ?_⟩
  · rw [hiff]
    refine and_congr_right fun hfamily => ?_
    rw [SamePrefix, ← IpAddr.length_octets hfamily.symm, ← IpAddr.width_eq]
    rfl
  · have hc' := Cidr.prefixLen_le_of_parse h'
    obtain ⟨hfamily, hprefix⟩ := (Cidr.contains_iff_samePrefix hc' ip).mp hip
    rw [haddr] at hfamily hprefix
    exact (hiff ip).mpr ⟨hfamily,
      hprefix.mono (IpAddr.length_octets hfamily.symm) (UInt8.le_iff_toNat_le.mp hle)⟩
  · rw [hiff, hzero]
    exact and_iff_left (samePrefix_zero _ _)
  · rw [hiff, hfull, IpAddr.width_eq]
    constructor
    · rintro ⟨hfamily, hprefix⟩
      have hoctets := (samePrefix_full (IpAddr.length_octets hfamily.symm)).mp hprefix
      exact (IpAddr.octets_inj hfamily.symm hoctets).symm
    · rintro rfl
      exact ⟨rfl, rfl⟩

/-- A block with host bits set. -/
theorem cidr_contains_iff_hostBits :
    ∃ c, Cidr.parse "10.1.2.3/12".toList = some c ∧ c.contains (.v4 #v[10, 15, 255, 255]) = true ∧
      ∀ ip, c.contains ip = true ↔ ip.isIpv4 = c.addr.isIpv4 ∧
        c.addr.toNat / 2 ^ (c.addr.width - c.prefixLen.toNat) =
          ip.toNat / 2 ^ (c.addr.width - c.prefixLen.toNat) :=
  ⟨⟨.v4 #v[10, 1, 2, 3], 12⟩, by decide, by decide,
    (cidr_contains_iff (s := "10.1.2.3/12".toList) (by decide)).1⟩

end XrayRs
