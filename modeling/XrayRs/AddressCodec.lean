import XrayRs.Net

/-! # What the address codec reads back

Reading what the codec wrote is a function of the address alone
(`Address.reread`): neither the type-byte map, nor the field order, nor the mask
matters.  From that one lemma (`read_write`) follow the round trip on canonical
addresses and the two collapses (a v4-mapped IPv6 address, a domain that spells
an IPv4 address).

The converse question is whether every decoded address is canonical.  It is not:
a domain-typed field can spell a v4-mapped IPv6 address, which `Address::parse`
returns as it stands while the binary form would have collapsed it.  The
round trip of a decoded address fails exactly there (`SpellsMapped`). -/

namespace XrayRs

open ByteWords ByteParser

/-! ## Field readers -/

@[simp] theorem takeU8_cons (b : UInt8) (rest : Bytes) :
    takeU8.run (b :: rest) = .ok (b, rest) := rfl

theorem takeU8_eq_ok {buf rest : Bytes} {b : UInt8} (h : takeU8.run buf = .ok (b, rest)) :
    buf = b :: rest := by
  cases buf with
  | nil => cases h
  | cons c t =>
    cases h
    rfl

theorem take_append {n : Nat} {a : Bytes} (h : a.length = n) (rest : Bytes) :
    (take n).run (a ++ rest) = .ok (a, rest) := by
  subst h
  show (if (a ++ rest).length < a.length then _ else _) = _
  rw [if_neg (by simp), List.take_left, List.drop_left]

theorem take_eq_ok {n : Nat} {buf a rest : Bytes} (h : (take n).run buf = .ok (a, rest)) :
    buf = a ++ rest ∧ a.length = n := by
  change (if buf.length < n then _ else _) = _ at h
  split at h
  · cases h
  · cases h
    refine ⟨(List.take_append_drop n buf).symm, ?_⟩
    rw [List.length_take]
    omega

theorem take_eq_error {n : Nat} {buf : Bytes} {e : Error} (h : (take n).run buf = .error e) :
    buf.length < n ∧ e = .truncated n buf.length := by
  change (if buf.length < n then _ else _) = _ at h
  split at h
  · next hlt =>
    cases h
    exact ⟨hlt, rfl⟩
  · cases h

@[simp] theorem readPort_u16ToBe (p : UInt16) (rest : Bytes) :
    readPort.run (u16ToBe p ++ rest) = .ok (p, rest) := by
  show Except.ok (u16OfBe _ _, rest) = _
  rw [u16OfBe_toBe]

theorem readPort_eq_ok {buf rest : Bytes} {p : UInt16} (h : readPort.run buf = .ok (p, rest)) :
    buf = u16ToBe p ++ rest := by
  match buf, h with
  | [], h => cases h
  | [_], h => cases h
  | hi :: lo :: t, h =>
    cases h
    rw [u16ToBe_ofBe]
    rfl

/-! ## Reading back what was written -/

/-- What `read` makes of the fields that `write` emits for an address. -/
def Address.reread : Address → Except Error Address
  | .ip (.v4 o) => .ok (.ip (.v4 o))
  | .ip (.v6 o) => Address.fromIpBytes o.toList
  | .domain d => if asBytes d = [] then .error .badDomain else readDomain (asBytes d)

theorem fromIpBytes_v4 (o : Vector UInt8 4) :
    Address.fromIpBytes o.toList = .ok (.ip (.v4 o)) := by
  have h : o.toList.length = 4 := by simp
  rw [Address.fromIpBytes, dif_pos h]
  congr 3

theorem fromIpBytes_v6 (o : Vector UInt8 16) :
    Address.fromIpBytes o.toList =
      match toIpv4Mapped o with
      | some v4 => .ok (.ip (.v4 v4))
      | none => .ok (.ip (.v6 o)) := by
  have h : o.toList.length = 16 := by simp
  have ho : (⟨o.toList.toArray, h⟩ : Vector UInt8 16) = o := by
    apply Vector.toList_inj.mp
    simp
  rewrite [Address.fromIpBytes, dif_neg (by omega), dif_pos h, ho]
  cases toIpv4Mapped o <;> rfl

/-- The kind of an address, as its type byte announces it. -/
def Address.kind : Address → Kind
  | .ip (.v4 _) => .ipv4
  | .ip (.v6 _) => .ipv6
  | .domain _ => .domain

/-- The type bytes that are written have no bits for the mask to clear. -/
theorem mask_byteFor (f : Family) (a : Address) : f.byteFor a &&& 0x0f = f.byteFor a := by
  cases f <;> rcases a with (_ | _) | _ <;> simp only [Family.byteFor] <;> decide

/-- The masked type byte of an address announces its kind. -/
theorem kind_byteFor (c : AddrCodec) (a : Address) :
    c.family.kind (if c.mask then c.family.byteFor a &&& 0x0f else c.family.byteFor a) =
      some a.kind := by
  rw [mask_byteFor, ite_self]
  cases c.family <;> rcases a with (_ | _) | _ <;> rfl

/-- The reader on a type byte that announces `kind`. -/
theorem readAddress_cons (c : AddrCodec) (t : UInt8) (buf : Bytes) {kind : Kind}
    (h : c.family.kind (if c.mask then t &&& 0x0f else t) = some kind) :
    c.readAddress.run (t :: buf) =
      (match kind with
        | .ipv4 => do
          let b ← take 4
          ByteParser.lift (Address.fromIpBytes b)
        | .ipv6 => do
          let b ← take 16
          ByteParser.lift (Address.fromIpBytes b)
        | .domain => do
          let len ← takeU8
          if len = 0 then
            throw Error.badDomain
          else
            let b ← take len.toNat
            ByteParser.lift (readDomain b) : Parser Address).run buf := by
  unfold AddrCodec.readAddress
  rw [run_bind_of_ok (takeU8_cons t buf)]
  simp only [h]
  cases kind <;> rfl

theorem readAddress_writeAddress (c : AddrCodec) {a : Address} {w : Bytes}
    (hw : c.writeAddress a = .ok w) (rest : Bytes) :
    c.readAddress.run (w ++ rest) = a.reread.map fun a' => (a', rest) := by
  have hkind := kind_byteFor c a
  unfold AddrCodec.writeAddress at hw
  rcases a with (o | o) | d
  · obtain rfl := Except.ok.inj hw
    rw [List.cons_append, readAddress_cons c _ _ hkind]
    show (take 4 >>= _).run _ = _
    rw [run_bind_of_ok (take_append (by simp) rest), fromIpBytes_v4]
    rfl
  · obtain rfl := Except.ok.inj hw
    rw [List.cons_append, readAddress_cons c _ _ hkind]
    show (take 16 >>= _).run _ = _
    rw [run_bind_of_ok (take_append (by simp) rest)]
    rfl
  · simp only at hw
    split at hw
    · next hlen =>
      obtain rfl := Except.ok.inj hw
      rw [List.cons_append, readAddress_cons c _ _ hkind]
      show (takeU8 >>= _).run _ = _
      rw [List.cons_append, run_bind_of_ok (takeU8_cons _ _)]
      have hnat : (UInt8.ofNat (asBytes d).length).toNat = (asBytes d).length := by
        rw [UInt8.toNat_ofNat', Nat.mod_eq_of_lt (by omega)]
      by_cases hnil : asBytes d = []
      · rw [if_pos (by rw [hnil]; rfl), Address.reread, if_pos hnil]
        rfl
      · have hz : UInt8.ofNat (asBytes d).length ≠ 0 := by
          intro h0
          rw [h0] at hnat
          exact hnil (List.length_eq_zero_iff.mp hnat.symm)
        rw [if_neg hz, run_bind_of_ok (take_append hnat.symm rest), Address.reread, if_neg hnil]
        rfl
    · cases hw

/-- The bytes `v` of an address with the port before or after them. -/
def AddrCodec.withPort (c : AddrCodec) (port : UInt16) (v : Bytes) : Bytes :=
  match c.order with
  | .portFirst => u16ToBe port ++ v
  | .portLast => v ++ u16ToBe port

theorem write_eq_map (c : AddrCodec) (a : Address) (port : UInt16) :
    c.write a port = (c.writeAddress a).map (c.withPort port) := by
  obtain ⟨family, order, mask⟩ := c
  cases order with
  | portFirst =>
    show (AddrCodec.writeAddress ⟨family, .portFirst, mask⟩ a >>= fun v =>
      pure (u16ToBe port ++ v)) = _
    rcases AddrCodec.writeAddress ⟨family, .portFirst, mask⟩ a with e | v <;> rfl
  | portLast =>
    show (AddrCodec.writeAddress ⟨family, .portLast, mask⟩ a >>= fun v =>
      pure (v ++ u16ToBe port)) = _
    rcases AddrCodec.writeAddress ⟨family, .portLast, mask⟩ a with e | v <;> rfl

/-- **Reading what was written**: the address comes back as `reread` says, the
port as it was, and nothing of what follows is touched. -/
theorem read_write (c : AddrCodec) {a : Address} {port : UInt16} {w : Bytes}
    (hw : c.write a port = .ok w) (rest : Bytes) :
    c.read.run (w ++ rest) = a.reread.map fun a' => ((a', port), rest) := by
  rw [write_eq_map] at hw
  rcases ha : c.writeAddress a with e | v
  · rw [ha] at hw
    cases hw
  · rw [ha] at hw
    obtain rfl := Except.ok.inj hw
    cases horder : c.order with
    | portFirst =>
      have hread := readAddress_writeAddress c ha rest
      simp only [AddrCodec.read, AddrCodec.withPort, horder]
      rw [List.append_assoc, run_bind_of_ok (readPort_u16ToBe port _)]
      rcases hr : a.reread with e | a'
      · rw [hr] at hread
        exact run_bind_of_error hread
      · rw [hr] at hread
        rw [run_bind_of_ok hread]
        rfl
    | portLast =>
      have hread := readAddress_writeAddress c ha (u16ToBe port ++ rest)
      simp only [AddrCodec.read, AddrCodec.withPort, horder]
      rw [List.append_assoc]
      rcases hr : a.reread with e | a'
      · rw [hr] at hread
        exact run_bind_of_error hread
      · rw [hr] at hread
        rw [run_bind_of_ok hread, run_bind_of_ok (readPort_u16ToBe port rest)]
        rfl

/-! ## The round trip -/

/-- The IP address `Address::parse` finds in a text: a literal, bare or in
brackets. -/
def literalOf (text : Bytes) : Option IpAddr :=
  (IpLiteral.parseIpAddr text).or ((stripBrackets text).bind IpLiteral.parseIpAddr)

theorem parse_eq (s : String) :
    Address.parse s = match literalOf (asBytes s) with
      | some literal => .ip literal
      | none => .domain s := by
  unfold Address.parse literalOf
  cases IpLiteral.parseIpAddr (asBytes s) with
  | some literal => rfl
  | none => rfl

/-- Addresses in the form the codec is meant to carry: IPv4, IPv6 that is not
v4-mapped, or a domain of 1 to 255 bytes from `[A-Za-z0-9._-]` that is no IP
literal. -/
def Address.Canonical : Address → Prop
  | .ip (.v4 _) => True
  | .ip (.v6 o) => toIpv4Mapped o = none
  | .domain d => asBytes d ≠ [] ∧ (asBytes d).length ≤ 255 ∧ (asBytes d).all isDomainByte = true ∧
      IpLiteral.parseIpAddr (asBytes d) = none

/-- A text of domain bytes has no brackets around it. -/
theorem stripBrackets_of_domain {text : Bytes} (h : text.all isDomainByte = true) :
    stripBrackets text = none := by
  unfold stripBrackets
  split
  · next t =>
    rw [List.all_cons, Bool.and_eq_true] at h
    exact absurd h.1 (by decide)
  · rfl

theorem reread_canonical {a : Address} (h : a.Canonical) : a.reread = .ok a := by
  rcases a with (o | o) | d
  · rfl
  · rw [Address.reread, fromIpBytes_v6, show toIpv4Mapped o = none from h]
  · obtain ⟨hne, -, hall, hlit⟩ := h
    have hparse : Address.parse d = .domain d := by
      rw [parse_eq, literalOf, hlit, stripBrackets_of_domain hall]
      rfl
    have hvalid : isValidDomain d = true := by
      simp [isValidDomain, hne, hall]
    rw [Address.reread, if_neg hne, readDomain, fromUtf8_asBytes]
    simp [hparse, Address.isIp, hvalid]

/-- Only a domain that is too long cannot be written. -/
theorem write_eq_ok (c : AddrCodec) (a : Address) (port : UInt16)
    (h : ∀ d, a = .domain d → (asBytes d).length ≤ 255) : ∃ w, c.write a port = .ok w := by
  have ha : ∃ w, c.writeAddress a = .ok w := by
    rcases a with (o | o) | d
    · exact ⟨_, rfl⟩
    · exact ⟨_, rfl⟩
    · exact ⟨_, if_pos (h d rfl)⟩
  obtain ⟨v, hv⟩ := ha
  rw [write_eq_map, hv]
  exact ⟨_, rfl⟩

/-- An address that can be written and that `reread` maps to `a'` comes back as
`a'`. -/
theorem exists_write_read (c : AddrCodec) {a a' : Address} (port : UInt16) (rest : Bytes)
    (hlen : ∀ d, a = .domain d → (asBytes d).length ≤ 255) (h : a.reread = .ok a') :
    ∃ w, c.write a port = .ok w ∧ c.read.run (w ++ rest) = .ok ((a', port), rest) := by
  obtain ⟨w, hw⟩ := write_eq_ok c a port hlen
  refine ⟨w, hw, ?_⟩
  rw [read_write c hw rest, h]
  rfl

theorem Address.Canonical.length_le {a : Address} (h : a.Canonical) {d : String}
    (hd : a = .domain d) : (asBytes d).length ≤ 255 := by
  subst hd
  exact h.2.1

/-- A domain that spells an IPv4 address is read as that address. -/
theorem reread_v4_literal {d : String} {v4 : Vector UInt8 4}
    (h : IpLiteral.parseIpAddr (asBytes d) = some (.v4 v4)) :
    (Address.domain d).reread = .ok (.ip (.v4 v4)) := by
  obtain ⟨⟨c, t, hd, hdigit⟩, -⟩ := IpLiteral.parseIpAddr_v4 h
  have hparse : Address.parse d = .ip (.v4 v4) := by
    rw [parse_eq, literalOf, h]
    rfl
  have hlook : looksLikeIp (asBytes d) = true := by
    rw [hd]
    simp [looksLikeIp, hdigit]
  rw [Address.reread, if_neg (by rw [hd]; exact List.cons_ne_nil c t), readDomain, fromUtf8_asBytes]
  simp [hlook, hparse, Address.isIp]

/-- **Decoding undoes encoding**, for every codec, port and following bytes:
canonical addresses come back as they are, a v4-mapped IPv6 address as its IPv4
address, a domain that spells an IPv4 address as that address; a domain of more
than 255 bytes is not written. -/
theorem addrCodec_read_undoes_write (c : AddrCodec) (a : Address) (port : UInt16) (rest : Bytes) :
    (a.Canonical →
      ∃ w, c.write a port = .ok w ∧ c.read.run (w ++ rest) = .ok ((a, port), rest)) ∧
    (∀ o v4, a = .ip (.v6 o) → toIpv4Mapped o = some v4 →
      ∃ w, c.write a port = .ok w ∧ c.read.run (w ++ rest) = .ok ((.ip (.v4 v4), port), rest)) ∧
    (∀ d v4, a = .domain d → IpLiteral.parseIpAddr (asBytes d) = some (.v4 v4) →
      ∃ w, c.write a port = .ok w ∧ c.read.run (w ++ rest) = .ok ((.ip (.v4 v4), port), rest)) ∧
    (∀ d, a = .domain d → 255 < (asBytes d).length → c.write a port = .error .badDomain) := by
  refine ⟨fun h => ?_, ?_, ?_, ?_⟩
  · exact exists_write_read c port rest (fun d => h.length_le) (reread_canonical h)
  · rintro o v4 rfl hmap
    refine exists_write_read c port rest (fun d hd => by cases hd) ?_
    rw [Address.reread, fromIpBytes_v6, hmap]
  · rintro d v4 rfl hlit
    refine exists_write_read c port rest (fun d' hd' => ?_) (reread_v4_literal hlit)
    cases hd'
    exact Nat.le_trans (IpLiteral.parseIpAddr_v4 hlit).2 (by decide)
  · rintro d rfl hlen
    have hw : c.writeAddress (.domain d) = .error .badDomain := if_neg (by omega)
    rw [write_eq_map, hw]
    rfl

/-! ## Decoded addresses

`readAddress_eq_ok` says where a decoded address comes from: the octets of a
binary field, or the text of a domain field. -/

/-- The type byte announces `kind`. -/
def AddrCodec.Announces (c : AddrCodec) (t : UInt8) (kind : Kind) : Prop :=
  c.family.kind (if c.mask then t &&& 0x0f else t) = some kind

theorem readAddress_eq_ok (c : AddrCodec) {buf rest : Bytes} {a : Address}
    (h : c.readAddress.run buf = .ok (a, rest)) :
    (∃ t b, c.Announces t .ipv4 ∧ buf = t :: (b ++ rest) ∧ Address.fromIpBytes b = .ok a) ∨
    (∃ t b, c.Announces t .ipv6 ∧ buf = t :: (b ++ rest) ∧ Address.fromIpBytes b = .ok a) ∨
    (∃ t len b, c.Announces t .domain ∧ buf = t :: len :: (b ++ rest) ∧ b.length = len.toNat ∧
      len ≠ 0 ∧ readDomain b = .ok a) := by
  obtain ⟨t, mid, ht, hkind⟩ := run_bind_eq_ok.mp h
  obtain rfl := takeU8_eq_ok ht
  simp only at hkind
  split at hkind
  · cases hkind
  · next hk =>
    obtain ⟨b, mid', hb, hlift⟩ := run_bind_eq_ok.mp hkind
    obtain ⟨rfl, -⟩ := take_eq_ok hb
    obtain ⟨ha, rfl⟩ := run_lift_eq_ok.mp hlift
    exact .inl ⟨t, b, hk, rfl, ha⟩
  · next hk =>
    obtain ⟨b, mid', hb, hlift⟩ := run_bind_eq_ok.mp hkind
    obtain ⟨rfl, -⟩ := take_eq_ok hb
    obtain ⟨ha, rfl⟩ := run_lift_eq_ok.mp hlift
    exact .inr (.inl ⟨t, b, hk, rfl, ha⟩)
  · next hk =>
    obtain ⟨len, mid', hlen, hdom⟩ := run_bind_eq_ok.mp hkind
    obtain rfl := takeU8_eq_ok hlen
    split at hdom
    · cases hdom
    · next hz =>
      obtain ⟨b, mid', hb, hlift⟩ := run_bind_eq_ok.mp hdom
      obtain ⟨rfl, hbl⟩ := take_eq_ok hb
      obtain ⟨ha, rfl⟩ := run_lift_eq_ok.mp hlift
      exact .inr (.inr ⟨t, len, b, hk, rfl, hbl, hz, ha⟩)

/-- A binary field decodes to a canonical address. -/
theorem fromIpBytes_canonical {b : Bytes} {a : Address} (h : Address.fromIpBytes b = .ok a) :
    a.Canonical := by
  unfold Address.fromIpBytes at h
  split at h
  · cases h
    trivial
  · split at h
    · split at h
      · cases h
        trivial
      · next hnone =>
        cases h
        exact hnone
    · cases h

/-- What a domain field decodes to: the literal it spells, if its first byte
makes the reader look for one, else the domain it spells. -/
theorem readDomain_eq_ok {b : Bytes} {a : Address} (h : readDomain b = .ok a) :
    (∃ literal, looksLikeIp b = true ∧ literalOf b = some literal ∧ a = .ip literal) ∨
    (∃ d, b = asBytes d ∧ a = .domain d ∧ isValidDomain d = true ∧
      ¬ (looksLikeIp b = true ∧ ∃ literal, literalOf b = some literal)) := by
  unfold readDomain at h
  split at h
  · cases h
  · next d hd =>
    obtain rfl := asBytes_of_fromUtf8 hd
    split at h
    · next hc =>
      obtain ⟨hlook, hip⟩ := Bool.and_eq_true_iff.mp hc
      obtain rfl := Except.ok.inj h
      rw [parse_eq] at hip ⊢
      cases hlit : literalOf (asBytes d) with
      | some literal => exact .inl ⟨literal, hlook, rfl, rfl⟩
      | none =>
        rw [hlit] at hip
        cases hip
    · next hc =>
      split at h
      · cases h
      · next hv =>
        obtain rfl := Except.ok.inj h
        refine .inr ⟨d, rfl, rfl, by simpa using hv, ?_⟩
        rintro ⟨hlook, literal, hlit⟩
        apply hc
        rw [parse_eq, hlook, hlit]
        rfl

/-- The bytes of a buffer from the address-type byte on. -/
def AddrCodec.addressField (c : AddrCodec) (buf : Bytes) : Bytes :=
  match c.order with
  | .portFirst => buf.drop 2
  | .portLast => buf

/-- **The texts the canonicalisation misses**: the address field is domain-typed
and its text, starting with a digit or a bracket, spells a v4-mapped IPv6
address. -/
def AddrCodec.SpellsMapped (c : AddrCodec) (buf : Bytes) : Prop :=
  ∃ t len text more o v4, c.addressField buf = t :: len :: (text ++ more) ∧
    c.Announces t .domain ∧ text.length = len.toNat ∧ looksLikeIp text = true ∧
    literalOf text = some (.v6 o) ∧ toIpv4Mapped o = some v4

/-- Where `read` finds its address field. -/
theorem read_eq_ok (c : AddrCodec) {buf rest : Bytes} {a : Address} {port : UInt16}
    (h : c.read.run buf = .ok ((a, port), rest)) :
    ∃ rest', c.readAddress.run (c.addressField buf) = .ok (a, rest') := by
  cases horder : c.order with
  | portFirst =>
    simp only [AddrCodec.read, AddrCodec.addressField, horder] at h ⊢
    obtain ⟨p, mid, hp, h⟩ := run_bind_eq_ok.mp h
    obtain ⟨a', mid', ha, h⟩ := run_bind_eq_ok.mp h
    cases h
    rw [readPort_eq_ok hp]
    exact ⟨_, ha⟩
  | portLast =>
    simp only [AddrCodec.read, AddrCodec.addressField, horder] at h ⊢
    obtain ⟨a', mid', ha, h⟩ := run_bind_eq_ok.mp h
    obtain ⟨p, mid, hp, h⟩ := run_bind_eq_ok.mp h
    cases h
    exact ⟨_, ha⟩

/-- A v4-mapped IPv6 address. -/
def Address.IsMapped (a : Address) : Prop := ∃ o v4, a = .ip (.v6 o) ∧ toIpv4Mapped o = some v4

/-- A mapped address does not come back as itself. -/
theorem reread_mapped {a : Address} (h : a.IsMapped) : a.reread ≠ .ok a := by
  obtain ⟨o, v4, rfl, hmap⟩ := h
  rw [Address.reread, fromIpBytes_v6, hmap]
  intro h
  cases h

/-- A decoded address comes back as itself unless it is v4-mapped. -/
theorem reread_decoded (c : AddrCodec) {buf rest : Bytes} {a : Address}
    (h : c.readAddress.run buf = .ok (a, rest)) (hm : ¬ a.IsMapped) :
    a.reread = .ok a ∧ ∀ d, a = .domain d → (asBytes d).length ≤ 255 := by
  rcases readAddress_eq_ok c h with ⟨_, _, -, -, hb⟩ | ⟨_, _, -, -, hb⟩ |
    ⟨t, len, b, -, -, hl, hz, hb⟩
  · exact ⟨reread_canonical (fromIpBytes_canonical hb), fun d => (fromIpBytes_canonical hb).length_le⟩
  · exact ⟨reread_canonical (fromIpBytes_canonical hb), fun d => (fromIpBytes_canonical hb).length_le⟩
  · have hb' := hb
    rcases readDomain_eq_ok hb with ⟨literal, -, -, rfl⟩ | ⟨d, rfl, rfl, -, -⟩
    · refine ⟨?_, fun d hd => by cases hd⟩
      cases literal with
      | v4 o => rfl
      | v6 o =>
        cases hmap : toIpv4Mapped o with
        | none => exact reread_canonical hmap
        | some v4 => exact absurd ⟨o, v4, rfl, hmap⟩ hm
    · have hne : asBytes d ≠ [] := by
        intro hnil
        rw [hnil] at hl
        exact hz (UInt8.toNat_inj.mp hl.symm)
      constructor
      · rw [Address.reread, if_neg hne]
        exact hb'
      · intro d' hd'
        cases hd'
        have := len.toNat_lt
        omega

/-- A decoded address is v4-mapped exactly when its field spells it so. -/
theorem decoded_isMapped_iff (c : AddrCodec) {buf rest : Bytes} {a : Address} {port : UInt16}
    (h : c.read.run buf = .ok ((a, port), rest)) : a.IsMapped ↔ c.SpellsMapped buf := by
  obtain ⟨rest', ha⟩ := read_eq_ok c h
  constructor
  · rintro ⟨o, v4, rfl, hmap⟩
    rcases readAddress_eq_ok c ha with ⟨_, _, -, -, hb⟩ | ⟨_, _, -, -, hb⟩ |
      ⟨t, len, b, ht, hbuf, hl, -, hb⟩
    · have hcan : toIpv4Mapped o = none := fromIpBytes_canonical hb
      rw [hcan] at hmap
      cases hmap
    · have hcan : toIpv4Mapped o = none := fromIpBytes_canonical hb
      rw [hcan] at hmap
      cases hmap
    · rcases readDomain_eq_ok hb with ⟨literal, hlook, hlit, he⟩ | ⟨d, -, he, -⟩
      · cases he
        exact ⟨t, len, b, rest', o, v4, hbuf, ht, hl, hlook, hlit, hmap⟩
      · cases he
  · rintro ⟨t, len, text, more, o, v4, hbuf, ht, hl, hlook, hlit, hmap⟩
    refine ⟨o, v4, ?_, hmap⟩
    rcases readAddress_eq_ok c ha with ⟨t', b, ht', hbuf', -⟩ | ⟨t', b, ht', hbuf', -⟩ |
      ⟨t', len', b, -, hbuf', hl', -, hb⟩
    -- the type byte announces one kind only
    · rw [hbuf] at hbuf'
      obtain ⟨rfl, -⟩ := List.cons.inj hbuf'
      cases ht.symm.trans ht'
    · rw [hbuf] at hbuf'
      obtain ⟨rfl, -⟩ := List.cons.inj hbuf'
      cases ht.symm.trans ht'
    · rw [hbuf] at hbuf'
      simp only [List.cons.injEq] at hbuf'
      obtain ⟨-, hlen, hbuf'⟩ := hbuf'
      obtain ⟨rfl, -⟩ := List.append_inj hbuf' (by rw [hl, hl', hlen])
      rcases readDomain_eq_ok hb with ⟨literal, -, hlit', rfl⟩ | ⟨d, -, -, -, hn⟩
      · rw [hlit] at hlit'
        cases hlit'
        rfl
      · exact absurd ⟨hlook, _, hlit⟩ hn

/-- **When decoded addresses are canonical.**  What `read` returns can be written
and read back to the same value exactly when the address field does not spell a
v4-mapped IPv6 address in a domain-typed field; and exactly then what `read`
returns is no v4-mapped IPv6 address. -/
theorem decoded_canonical_iff (c : AddrCodec) {buf rest : Bytes} {a : Address} {port : UInt16}
    (h : c.read.run buf = .ok ((a, port), rest)) :
    ((∃ w, c.write a port = .ok w ∧ c.read.run (w ++ rest) = .ok ((a, port), rest)) ↔
        ¬ c.SpellsMapped buf) ∧
      (¬ a.IsMapped ↔ ¬ c.SpellsMapped buf) := by
  rw [← decoded_isMapped_iff c h]
  refine ⟨⟨?_, fun hm => ?_⟩, Iff.rfl⟩
  · rintro ⟨w, hw, hread⟩ hm
    rw [read_write c hw rest] at hread
    rcases hr : a.reread with e | a'
    · rw [hr] at hread
      cases hread
    · rw [hr] at hread
      cases hread
      exact reread_mapped hm hr
  · obtain ⟨rest', ha⟩ := read_eq_ok c h
    obtain ⟨hr, hlen⟩ := reread_decoded c ha hm
    exact exists_write_read c port rest hlen hr

/-- `127.0.0.1:80`, in binary form, is decoded to a canonical address. -/
theorem decoded_canonical_iff_loopback :
    ((∃ w, AddrCodec.TROJAN.write (.ip (.v4 #v[127, 0, 0, 1])) 80 = .ok w ∧
          AddrCodec.TROJAN.read.run (w ++ []) = .ok ((.ip (.v4 #v[127, 0, 0, 1]), 80), [])) ↔
        ¬ AddrCodec.TROJAN.SpellsMapped [1, 127, 0, 0, 1, 0, 80]) ∧
      (¬ (Address.ip (.v4 #v[127, 0, 0, 1])).IsMapped ↔
        ¬ AddrCodec.TROJAN.SpellsMapped [1, 127, 0, 0, 1, 0, 80]) :=
  decoded_canonical_iff AddrCodec.TROJAN
    (show AddrCodec.TROJAN.read.run [1, 127, 0, 0, 1, 0, 80] = _ from rfl)

/-- The octets of `::ffff:10.0.0.1`. -/
def mappedOctets : Vector UInt8 16 := #v[0, 0, 0, 0, 0, 0, 0, 0, 0, 0, 0xff, 0xff, 10, 0, 0, 1]

/-- **A decoded address that is not canonical.**  The domain field
`[::ffff:10.0.0.1]` decodes to the v4-mapped IPv6 address, which, written and
read again, is `10.0.0.1`. -/
theorem decoded_mapped_literal :
    AddrCodec.TROJAN.read.run (3 :: 17 :: asBytes "[::ffff:10.0.0.1]" ++ [0, 80]) =
        .ok ((.ip (.v6 mappedOctets), 80), []) ∧
      (Address.ip (.v6 mappedOctets)).IsMapped ∧
      ¬ ∃ w, AddrCodec.TROJAN.write (.ip (.v6 mappedOctets)) 80 = .ok w ∧
        AddrCodec.TROJAN.read.run (w ++ []) = .ok ((.ip (.v6 mappedOctets), 80), []) := by
  refine ⟨rfl, ⟨mappedOctets, #v[10, 0, 0, 1], rfl, rfl⟩, ?_⟩
  rintro ⟨w, hw, hread⟩
  obtain rfl := Except.ok.inj hw
  have hback : AddrCodec.TROJAN.read.run (4 :: mappedOctets.toList ++ [0, 80] ++ []) =
      .ok ((.ip (.v4 #v[10, 0, 0, 1]), 80), []) := rfl
  cases hread.symm.trans hback

end XrayRs
