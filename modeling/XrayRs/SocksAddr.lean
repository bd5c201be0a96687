import XrayRs.CutStream
import XrayRs.HeaderRead
import XrayRs.Socks

/-! # SOCKS addresses off a stream

`read_addr` (`proxy/src/socks.rs`) collects the bytes of an address from the stream
before it gives them to `AddrCodec::SOCKS`.  It has to know their number beforehand; that
it takes neither more nor fewer than the codec does is `readAddr_eq_codec`. -/

namespace XrayRs

open ByteWords ByteParser Dialogue

/-- The bytes that `read_addr` collects: by the type byte, and for a name by its
length. -/
def AddrForm (raw : Bytes) : Prop :=
  (∃ b : Bytes, raw = ATYP_IPV4 :: b ∧ b.length = 6) ∨
    (∃ b : Bytes, raw = ATYP_IPV6 :: b ∧ b.length = 18) ∨
    ∃ (len : UInt8) (b : Bytes), raw = ATYP_DOMAIN :: len :: b ∧ b.length = len.toNat + 2

/-- One of two such byte strings is not longer than the other. -/
theorem AddrForm.append_eq {raw raw' rest : Bytes} (h : AddrForm raw) (h' : AddrForm raw')
    (heq : raw = raw' ++ rest) : rest = [] := by
  have hlength := congrArg List.length heq
  rw [List.length_append] at hlength
  rcases h with ⟨b, rfl, hb⟩ | ⟨b, rfl, hb⟩ | ⟨len, b, rfl, hb⟩
  all_goals
    rcases h' with ⟨b', rfl, hb'⟩ | ⟨b', rfl, hb'⟩ | ⟨len', b', rfl, hb'⟩
    all_goals
      first
      | exact absurd (List.cons_eq_cons.mp heq).1 (by decide)
      | skip
  · exact List.length_eq_zero_iff.mp (by simp only [List.length_cons] at hlength; omega)
  · exact List.length_eq_zero_iff.mp (by simp only [List.length_cons] at hlength; omega)
  · obtain ⟨rfl, -⟩ := List.cons_eq_cons.mp (List.cons_eq_cons.mp heq).2
    exact List.length_eq_zero_iff.mp (by simp only [List.length_cons] at hlength; omega)

/-- The type byte of a kind. -/
def atypOf : Kind → UInt8
  | .ipv4 => ATYP_IPV4
  | .ipv6 => ATYP_IPV6
  | .domain => ATYP_DOMAIN

/-- The codec has the same type bytes as `read_addr`. -/
theorem socks_announces {t : UInt8} {kind : Kind} (h : AddrCodec.SOCKS.Announces t kind) :
    t = atypOf kind := by
  change (if t = 1 then some Kind.ipv4 else if t = 3 then some .domain
    else if t = 4 then some .ipv6 else none) = some kind at h
  split at h
  · next ht =>
    cases h
    exact ht
  · split at h
    · next ht =>
      cases h
      exact ht
    · split at h
      · next ht =>
        cases h
        exact ht
      · cases h

/-- **Where the codec reads an address**: off the bytes that `read_addr` collects. -/
theorem socks_read_forms {s rest : Bytes} {addr : Address × UInt16}
    (h : AddrCodec.SOCKS.read.run s = .ok (addr, rest)) :
    ∃ raw, s = raw ++ rest ∧ AddrForm raw ∧ AddrCodec.SOCKS.read.run raw = .ok (addr, []) := by
  obtain ⟨raw, rfl, hlocal⟩ := (incremental_read AddrCodec.SOCKS).ok_local h
  have hraw := hlocal []
  rw [List.append_nil] at hraw
  refine ⟨raw, rfl, ?_, hraw⟩
  obtain ⟨a, mid, ha, hport⟩ := run_bind_eq_ok.mp hraw
  obtain ⟨port, last, hport, hdone⟩ := run_bind_eq_ok.mp hport
  cases hdone
  obtain rfl := readPort_eq_ok hport
  obtain ⟨t, mid, ht, hkind⟩ := run_bind_eq_ok.mp ha
  obtain rfl := takeU8_eq_ok ht
  simp only at hkind
  split at hkind
  · cases hkind
  · next hk =>
    obtain rfl : t = ATYP_IPV4 := socks_announces hk
    obtain ⟨b, mid', hb, hlift⟩ := run_bind_eq_ok.mp hkind
    obtain ⟨rfl, hlength⟩ := take_eq_ok hb
    obtain ⟨-, rfl⟩ := run_lift_eq_ok.mp hlift
    exact .inl ⟨_, rfl, by rw [List.length_append, List.length_append, hlength]; rfl⟩
  · next hk =>
    obtain rfl : t = ATYP_IPV6 := socks_announces hk
    obtain ⟨b, mid', hb, hlift⟩ := run_bind_eq_ok.mp hkind
    obtain ⟨rfl, hlength⟩ := take_eq_ok hb
    obtain ⟨-, rfl⟩ := run_lift_eq_ok.mp hlift
    exact .inr (.inl ⟨_, rfl, by rw [List.length_append, List.length_append, hlength]; rfl⟩)
  · next hk =>
    obtain rfl : t = ATYP_DOMAIN := socks_announces hk
    obtain ⟨len, mid', hlen, hdomain⟩ := run_bind_eq_ok.mp hkind
    obtain rfl := takeU8_eq_ok hlen
    split at hdomain
    · cases hdomain
    · obtain ⟨b, mid', hb, hlift⟩ := run_bind_eq_ok.mp hdomain
      obtain ⟨rfl, hlength⟩ := take_eq_ok hb
      obtain ⟨-, rfl⟩ := run_lift_eq_ok.mp hlift
      exact .inr (.inr ⟨len, _, rfl, by
        rw [List.length_append, List.length_append, hlength]
        rfl⟩)

/-- On a stream in pieces, `read_exact` fills its buffer poll by poll. -/
theorem readExact_polls {pieces : List Bytes} (hcut : Cut pieces) (n : Nat) :
    (Io.readExact n).runOn pieces = Prog.readExactPolls earlyEof n pieces :=
  runOn_readExact hcut

/-- The decoding of collected bytes does not touch the stream. -/
theorem decodeAddr_run {raw bytes left : Bytes} {addr : Address × UInt16} :
    (decodeAddr raw).runOnBytes bytes = (.ok addr, left) ↔
      (∃ rest, AddrCodec.SOCKS.read.run raw = .ok (addr, rest)) ∧ bytes = left := by
  unfold decodeAddr Prog.lift
  cases hread : AddrCodec.SOCKS.read.run raw with
  | error e =>
    constructor
    · intro h
      cases h
    · rintro ⟨⟨rest, h⟩, -⟩
      cases h
  | ok r =>
    obtain ⟨addr', rest⟩ := r
    constructor
    · intro h
      cases h
      exact ⟨⟨rest, rfl⟩, rfl⟩
    · rintro ⟨⟨rest', h⟩, rfl⟩
      cases h
      rfl

/-- The bytes behind a front are collected, and decoded with it. -/
theorem collect_run (front : Bytes) {n : Nat} {bytes left : Bytes} {addr : Address × UInt16} :
    (Io.readExact n >>= fun b => decodeAddr (front ++ b)).runOnBytes bytes = (.ok addr, left) ↔
      ∃ b, bytes = b ++ left ∧ b.length = n ∧
        ∃ rest, AddrCodec.SOCKS.read.run (front ++ b) = .ok (addr, rest) := by
  constructor
  · intro h
    obtain ⟨b, rest, rfl, hb, h⟩ := runOnBytes_readExact_bind.mp h
    obtain ⟨hread, rfl⟩ := decodeAddr_run.mp h
    exact ⟨b, rfl, hb, hread⟩
  · rintro ⟨b, rfl, hb, hread⟩
    exact runOnBytes_readExact_bind.mpr ⟨b, left, rfl, hb, decodeAddr_run.mpr ⟨hread, rfl⟩⟩

/-- **What `read_addr` does**: it collects the bytes of an address and decodes them. -/
theorem readAddr_run {bytes left : Bytes} {addr : Address × UInt16} :
    readAddr.runOnBytes bytes = (.ok addr, left) ↔
      ∃ raw, bytes = raw ++ left ∧ AddrForm raw ∧
        ∃ rest, AddrCodec.SOCKS.read.run raw = .ok (addr, rest) := by
  unfold readAddr Io.readU8
  rw [runOnBytes_readU8]
  constructor
  · rintro ⟨atyp, rest, rfl, h⟩
    by_cases h4 : atyp = ATYP_IPV4
    · subst h4
      rw [if_pos rfl] at h
      obtain ⟨b, rfl, hb, hread⟩ := (collect_run [ATYP_IPV4]).mp h
      exact ⟨ATYP_IPV4 :: b, rfl, .inl ⟨b, rfl, hb⟩, hread⟩
    rw [if_neg h4] at h
    by_cases h6 : atyp = ATYP_IPV6
    · subst h6
      rw [if_pos rfl] at h
      obtain ⟨b, rfl, hb, hread⟩ := (collect_run [ATYP_IPV6]).mp h
      exact ⟨ATYP_IPV6 :: b, rfl, .inr (.inl ⟨b, rfl, hb⟩), hread⟩
    rw [if_neg h6] at h
    by_cases hd : atyp = ATYP_DOMAIN
    · subst hd
      rw [if_pos rfl] at h
      obtain ⟨len, rest, rfl, h⟩ := runOnBytes_readU8.mp h
      obtain ⟨b, rfl, hb, hread⟩ := (collect_run [ATYP_DOMAIN, len]).mp h
      exact ⟨ATYP_DOMAIN :: len :: b, rfl, .inr (.inr ⟨len, b, rfl, hb⟩), hread⟩
    · rw [if_neg hd] at h
      cases h
  · rintro ⟨raw, rfl, ⟨b, rfl, hb⟩ | ⟨b, rfl, hb⟩ | ⟨len, b, rfl, hb⟩, hread⟩
    · refine ⟨_, _, rfl, ?_⟩
      rw [if_pos rfl]
      exact (collect_run [ATYP_IPV4]).mpr ⟨b, rfl, hb, hread⟩
    · refine ⟨_, _, rfl, ?_⟩
      rw [if_neg (by decide), if_pos rfl]
      exact (collect_run [ATYP_IPV6]).mpr ⟨b, rfl, hb, hread⟩
    · refine ⟨_, _, rfl, ?_⟩
      rw [if_neg (by decide), if_neg (by decide), if_pos rfl]
      refine runOnBytes_readU8.mpr ⟨len, b ++ left, rfl, ?_⟩
      exact (collect_run [ATYP_DOMAIN, len]).mpr ⟨b, rfl, hb, hread⟩

/-- **Streaming and buffered decoding agree.**  On a stream that delivers its bytes cut
in any way and then ends, `read_addr` succeeds exactly if the codec does on the bytes,
with the same address and port, and leaves the bytes that the codec leaves. -/
theorem readAddr_eq_codec {pieces : List Bytes} (hcut : Cut pieces) (addr : Address × UInt16)
    (rest : Bytes) :
    (∃ left, readAddr.runOn pieces = (.ok addr, left) ∧ left.flatten = rest) ↔
      AddrCodec.SOCKS.read.run pieces.flatten = .ok (addr, rest) := by
  have hflat := runOn_flatten readAddr hcut
  generalize readAddr.runOn pieces = run at hflat
  obtain ⟨r, left⟩ := run
  constructor
  · rintro ⟨left', heq, rfl⟩
    cases heq
    obtain ⟨raw, hbytes, hform, last, hread⟩ := readAddr_run.mp hflat
    obtain ⟨raw', hraw, hform', -⟩ := socks_read_forms hread
    obtain rfl := hform.append_eq hform' hraw
    rw [hbytes]
    exact (incremental_read AddrCodec.SOCKS).ok_append hread left.flatten
  · intro hread
    obtain ⟨raw, hbytes, hform, hraw⟩ := socks_read_forms hread
    have hrun := readAddr_run.mpr ⟨raw, hbytes, hform, [], hraw⟩
    rw [hflat] at hrun
    cases hrun
    exact ⟨left, rfl, rfl⟩

/-- An IPv4 address in three pieces, the last with the first byte of the tunnel. -/
theorem readAddr_eq_codec_pieces :
    ∃ left, readAddr.runOn [[1, 127], [0], [0, 1, 0, 80, 71]] =
      (.ok (.ip (.v4 #v[127, 0, 0, 1]), 80), left) ∧ left.flatten = [71] :=
  (readAddr_eq_codec (by unfold Cut; decide) _ _).mpr rfl

end XrayRs
