import XrayRs.SniffPrefix

/-! # Names that can be used

A name that is dialed is not empty and has neither blanks nor control characters.  Each of
the two parsers of `kernel/src/route/sniff.rs` checks one half of this: the name of a
handshake has no blank, the host of a request is not empty.  So what is sniffed can be
used but for an empty server name and a `Host` with a blank inside (`sniff_usable_iff`). -/

namespace XrayRs

open ByteWords Text

/-- A name that can be used. -/
def Usable (name : String) : Prop := name ≠ "" ∧ ∀ b ∈ asBytes name, 0x20 < b

/-! ## Server names -/

/-- The payload is a record with a handshake, maybe with bytes behind it, and the first
extension of the handshake that names a host names this one. -/
def ServerNamed (payload : Bytes) (host : String) : Prop :=
  ∃ (minor : UInt8) (f : HelloFront) (before : List Extension) (e : Extension)
    (rest trailing exts : Bytes),
    (∀ e' ∈ before, ∀ host', ¬ e'.Names host') ∧ e.Names host ∧
      exts = before.flatMap Extension.bytes ++ e.bytes ++ rest ∧
        (f.bytes ++ sized16 exts).length < 65536 ∧
        payload = tlsRecord minor (f.bytes ++ sized16 exts) ++ trailing

/-- **What is sniffed of a handshake.** -/
theorem sniffTls_eq_some {payload : Bytes} {host : String} :
    sniffTls payload = some host ↔ ServerNamed payload host := by
  constructor
  · intro h
    obtain ⟨minor, hello, trailing, hfits, rfl, hhello⟩ := sniffTls_cases h
    obtain ⟨f, exts, -, rfl, hexts⟩ := readClientHello_cases hhello
    obtain ⟨before, e, rest, hbefore, he, hbytes⟩ := readExtensions_iff.mp hexts
    exact ⟨minor, f, before, e, rest, trailing, exts, hbefore, he, hbytes, hfits, rfl⟩
  · rintro ⟨minor, f, before, e, rest, trailing, exts, hbefore, he, hbytes, hfits, rfl⟩
    have hexts : exts.length < 65536 := by
      simp only [sized16, List.length_append, u16ToBe_length] at hfits
      omega
    rw [sniffTls_record hfits, readClientHello_extensions f hexts]
    exact readExtensions_iff.mpr ⟨before, e, rest, hbefore, he, hbytes⟩

/-- The handshake names the empty host. -/
def EmptyServerName (payload : Bytes) : Prop := ServerNamed payload ""

/-- A server name has no blank in it. -/
theorem NamesHost.no_blank {body : Bytes} {host : String} (h : NamesHost body host) :
    ∀ b ∈ asBytes host, 0x20 < b := by
  obtain ⟨-, entry, -, -, -, ⟨hutf8, hblank, -⟩, -⟩ := h
  rw [asBytes_of_fromUtf8 hutf8]
  exact hblank

theorem sniffTls_usable_iff {payload : Bytes} :
    (∀ d, sniffTls payload = some d → Usable d) ↔ ¬ EmptyServerName payload := by
  constructor
  · intro h hempty
    exact (h "" (sniffTls_eq_some.mpr hempty)).1 rfl
  · intro h d hd
    refine ⟨?_, ?_⟩
    · rintro rfl
      exact h (sniffTls_eq_some.mp hd)
    · obtain ⟨-, -, -, e, -, -, -, -, he, -⟩ := sniffTls_eq_some.mp hd
      exact he.2.no_blank

/-! ## Hosts -/

/-- The last `Host` value names a host with a blank or a control character inside. -/
def BlankHost (payload : Bytes) : Prop :=
  beginsWithHttpMethod payload = true ∧ (∀ v ∈ hostValues payload, (valueText v).isSome) ∧
    ∃ v host, (hostValues payload).getLast? = some v ∧ HostIn v host ∧ ∃ c ∈ host, c ≤ ' '

theorem lt_lowerByte {b : UInt8} : 0x20 < lowerByte b ↔ 0x20 < b := by
  unfold lowerByte
  by_cases h : 0x41 ≤ b ∧ b ≤ 0x5a
  · have h1 := UInt8.le_iff_toNat_le.mp h.1
    have h2 := UInt8.le_iff_toNat_le.mp h.2
    rw [if_pos h, UInt8.lt_iff_toNat_lt, UInt8.lt_iff_toNat_lt, UInt8.toNat_add]
    simp at h1 h2 ⊢
    omega
  · rw [if_neg h]

theorem lt_utf8EncodeChar {c : Char} : (∀ b ∈ String.utf8EncodeChar c, 0x20 < b) ↔ ' ' < c := by
  have hc : ' ' < c ↔ 32 < c.val.toNat := UInt32.lt_iff_toNat_lt
  rw [hc]
  rcases utf8EncodeChar_cases c with ⟨hlt, hbytes⟩ | ⟨hge, hall⟩
  · rw [hbytes, List.forall_mem_singleton, UInt8.lt_iff_toNat_lt,
      UInt8.toNat_ofNat_of_lt' (show _ < 256 by omega)]
    exact Iff.rfl
  · refine iff_of_true (fun b hb => ?_) (by omega)
    have hb := hall b hb
    rw [UInt8.lt_iff_toNat_lt]
    exact Nat.lt_of_lt_of_le (by decide) hb

/-- The bytes of a text that has no blank are above the blank. -/
theorem no_blank_iff {cs : List Char} :
    (∀ b ∈ asBytes (lowercase (.ofList cs)), 0x20 < b) ↔ ∀ c ∈ cs, ' ' < c := by
  rw [asBytes_lowercase, asBytes_ofList, List.forall_mem_map]
  simp only [lt_lowerByte, List.forall_mem_flatMap, lt_utf8EncodeChar]

theorem usable_lowercase {host : List Char} (hne : host ≠ []) :
    Usable (lowercase (.ofList host)) ↔ ∀ c ∈ host, ' ' < c := by
  rw [Usable, no_blank_iff]
  refine and_iff_right ?_
  simpa [lowercase, toAsciiLowercase] using hne

theorem sniffHttp_usable_iff {payload : Bytes} :
    (∀ d, sniffHttp payload = some d → Usable d) ↔ ¬ BlankHost payload := by
  constructor
  · rintro h ⟨hbegins, hread, v, host, hlast, hin, c, hc, hblank⟩
    have hd :=
      sniffHttp_eq_some.mpr ⟨hbegins, hread, v, hlast, hostNamed_eq_some.mpr ⟨host, hin, rfl⟩⟩
    exact absurd ((usable_lowercase hin.choose_spec.2.2).mp (h _ hd) c hc) (Char.not_lt.mpr hblank)
  · intro h d hd
    obtain ⟨hbegins, hread, v, hlast, hnamed⟩ := sniffHttp_eq_some.mp hd
    obtain ⟨host, hin, rfl⟩ := hostNamed_eq_some.mp hnamed
    refine (usable_lowercase hin.choose_spec.2.2).mpr fun c hc => Char.not_le.mp fun hblank => ?_
    exact h ⟨hbegins, hread, v, host, hlast, hin, c, hc, hblank⟩

/-! ## What is sniffed -/

/-- No request is a handshake. -/
theorem sniffTls_of_sniffHttp {payload : Bytes} {d : String} (h : sniffHttp payload = some d) :
    sniffTls payload = none := by
  refine Option.eq_none_iff_forall_ne_some.mpr fun host hhost => ?_
  obtain ⟨minor, hello, trailing, -, rfl, -⟩ := sniffTls_cases hhost
  cases (sniffHttp_handshake _).symm.trans h

/-- **Which payloads name something that can be used**: those without an empty server name
and without a blank in the `Host` that decides. -/
theorem sniff_usable_iff (payload : Bytes) :
    ((∀ protocol d, sniff payload = some (protocol, d) → Usable d) ∧
      ∀ target : Destination, target.address.isIp = true → ∀ name,
        (sniffOverride target payload).address = .domain name → Usable name) ↔
      ¬ EmptyServerName payload ∧ ¬ BlankHost payload := by
  rw [← sniffTls_usable_iff, ← sniffHttp_usable_iff]
  constructor
  · rintro ⟨h, -⟩
    refine ⟨fun d hd => h .tls d ?_, fun d hd => h .http d ?_⟩
    · rw [sniff, hd]
    · rw [sniff, sniffTls_of_sniffHttp hd, hd]
  · rintro ⟨htls, hhttp⟩
    have hsniff : ∀ protocol d, sniff payload = some (protocol, d) → Usable d := by
      intro protocol d hd
      unfold sniff at hd
      split at hd
      · next d' hd' =>
        obtain ⟨-, rfl⟩ := Prod.mk.inj (Option.some.inj hd)
        exact htls d' hd'
      · split at hd
        · next d' hd' =>
          obtain ⟨-, rfl⟩ := Prod.mk.inj (Option.some.inj hd)
          exact hhttp d' hd'
        · cases hd
    refine ⟨hsniff, fun target hip name hname => ?_⟩
    cases hd : sniff payload with
    | none =>
      rw [sniffOverride_of_none hd] at hname
      rw [hname] at hip
      cases hip
    | some found =>
      obtain ⟨protocol, d⟩ := found
      rw [sniffOverride_of_some hip hd] at hname
      obtain rfl := Address.domain.inj hname
      exact hsniff protocol d hd

/-- A handshake with an empty server name. -/
def namelessHello : ClientHello :=
  { smallHello with
    extensions := [⟨0, [0, 3, 0, 0, 0], by decide⟩]
    fits := by decide }

/-- It names the empty host, and a `Host` with a blank inside is a name with a blank. -/
theorem sniff_names_unusable :
    (sniff (tlsRecord 1 namelessHello.bytes) = some (.tls, "") ∧ ¬ Usable "" ∧
      (sniffOverride (.tcp (.ip (.v4 #v[10, 0, 0, 1])) 443)
        (tlsRecord 1 namelessHello.bytes)).address =
        .domain "") ∧
    sniff (asBytes "GET / HTTP/1.1\r\nHost: a b\r\n\r\n") = some (.http, "a b") ∧ ¬ Usable "a b" ∧
      (sniffOverride (.tcp (.ip (.v4 #v[10, 0, 0, 1])) 80)
        (asBytes "GET / HTTP/1.1\r\nHost: a b\r\n\r\n")).address = .domain "a b" := by
  have hnames : Extension.Names ⟨0, [0, 3, 0, 0, 0], by decide⟩ "" :=
    ⟨rfl, [], ⟨0, [], by decide⟩, [], by simp, rfl,
      ⟨by decide, List.forall_mem_nil _, by decide⟩, by decide, rfl⟩
  have htls : sniffTls (tlsRecord 1 namelessHello.bytes) = some "" := by
    have hread : sniffTls (tlsRecord 1 namelessHello.bytes ++ []) = _ :=
      (sniffTls_record namelessHello.fits []).trans (readClientHello_bytes namelessHello)
    rw [List.append_nil] at hread
    rw [hread]
    exact List.findSome?_eq_some_iff.mpr ⟨[], _, [], rfl,
      Extension.read_eq_some.mpr hnames, by simp⟩
  have hsniff : sniff (tlsRecord 1 namelessHello.bytes) = some (.tls, "") := by rw [sniff, htls]
  refine ⟨⟨hsniff, fun h => h.1 rfl, ?_⟩, by decide, fun h => ?_, by decide⟩
  · rw [sniffOverride_of_some rfl hsniff]
  · exact absurd (h.2 0x20 (by decide)) (by decide)

end XrayRs
