import XrayRs.HeaderRead

/-! # The VMess request header

`parse_header` (`proxy/src/vmess/header.rs`) on the decrypted header: 38 bytes of
fixed fields, the target unless the command is mux, padding, and a checksum over all
of it.

The checksum is found from the end and the target from the front.  Where the fields that
are read end before the checksum, the headers that are accepted are those of this form,
with padding of any length (`parseHeader_iff`).  The parser does not see to it that they
end there: a target that reaches into the checksum is read from its bytes
(`parseHeader_lenient`). -/

namespace XrayRs.Vmess

open ByteParser ByteWords

/-- `fnv1a`. -/
def fnv1a (data : Bytes) : UInt32 :=
  data.foldl (fun h b => (h ^^^ b.toUInt32) * 0x01000193) 0x811c9dc5

def cmdTcp : UInt8 := 1
def cmdUdp : UInt8 := 2
def cmdMux : UInt8 := 3

/-- `Request`. -/
structure Request where
  dest : Destination
  reqKey : Vector UInt8 16
  reqIv : Vector UInt8 16
  respHeader : UInt8
  option : UInt8
  security : UInt8
  mux : Bool
  email : String
  deriving DecidableEq

/-- The byte at `i` of a header that has it. -/
def byteAt (header : Bytes) (i : Nat) : UInt8 := header.getD i 0

/-- The sixteen bytes from `i` on of a header that has them. -/
def blockAt (header : Bytes) (i : Nat) : Vector UInt8 16 := .ofFn fun k => byteAt header (i + k)

/-- The checksum at the end of a header. -/
def checksum (header : Bytes) : UInt32 := u32OfBe (header.drop (header.length - 4))

/-- The request the fixed fields give for a target. -/
def requestOf (header : Bytes) (dest : Destination) (mux : Bool) : Request where
  dest := dest
  reqKey := blockAt header 17
  reqIv := blockAt header 1
  respHeader := byteAt header 33
  option := byteAt header 34
  security := byteAt header 35 &&& 0x0f
  mux := mux
  email := ""

/-- The network of a command with a target. -/
def networkOf (cmd : UInt8) : Except Error Network :=
  if cmd = cmdTcp then .ok .tcp
  else if cmd = cmdUdp then .ok .udp
  else .error (.protocol "vmess command")

/-- `parse_header`. -/
def parseHeader (header : Bytes) : Except Error Request :=
  if header.length < 38 then .error (.protocol "vmess header short")
  else if fnv1a (header.take (header.length - 4)) ≠ checksum header then .error .auth
  else if byteAt header 0 ≠ 1 then .error (.protocol "vmess version")
  else if byteAt header 37 = cmdMux then
    .ok (requestOf header (.tcp (.ip (.v4 #v[127, 0, 0, 1])) 0) true)
  else do
    let network ← networkOf (byteAt header 37)
    let ((address, port), _) ← AddrCodec.VMESS.read.run (header.drop 38)
    return requestOf header ⟨network, address, port⟩ false

/-! ## The form of a header -/

/-- **The form of a header**: fixed fields of version 1, the bytes of the target, which is
read to their end, any padding, and the checksum of all of it.  The request is what the
fields say; for mux there is no target. -/
def HeaderOf (header : Bytes) (req : Request) (pad : Bytes) : Prop :=
  ∃ fixed addr : Bytes, fixed.length = 38 ∧
    header = fixed ++ addr ++ pad ++ u32ToBe (fnv1a (fixed ++ addr ++ pad)).toNat ∧
    byteAt fixed 0 = 1 ∧
    (byteAt fixed 37 = cmdMux ∧ addr = [] ∧
        req = requestOf fixed (.tcp (.ip (.v4 #v[127, 0, 0, 1])) 0) true ∨
      ∃ network address port, networkOf (byteAt fixed 37) = .ok network ∧
        AddrCodec.VMESS.read.run addr = .ok ((address, port), []) ∧
        req = requestOf fixed ⟨network, address, port⟩ false)

/-- The fields that are read end before the checksum. -/
def FieldsApart (header : Bytes) : Prop :=
  42 ≤ header.length ∧ (byteAt header 37 ≠ cmdMux →
    ∀ target rest, AddrCodec.VMESS.read.run (header.drop 38) = .ok (target, rest) → 4 ≤ rest.length)

section Form

variable {header fixed mid chk : Bytes} {req : Request}

theorem networkOf_cmdMux : networkOf cmdMux = .error (.protocol "vmess command") := rfl

theorem byteAt_append (h : fixed.length = 38) (rest : Bytes) {i : Nat} (hi : i < 38) :
    byteAt (fixed ++ rest) i = byteAt fixed i := by
  rw [byteAt, byteAt, List.getD_eq_getElem?_getD, List.getD_eq_getElem?_getD,
    List.getElem?_append_left (by omega)]

theorem blockAt_append (h : fixed.length = 38) (rest : Bytes) {i : Nat} (hi : i + 16 ≤ 38) :
    blockAt (fixed ++ rest) i = blockAt fixed i := by
  unfold blockAt
  congr 1
  funext k
  exact byteAt_append h rest (by omega)

/-- The request is read off the fixed fields. -/
theorem requestOf_append (h : fixed.length = 38) (rest : Bytes) (dest : Destination) (mux : Bool) :
    requestOf (fixed ++ rest) dest mux = requestOf fixed dest mux := by
  simp only [requestOf, byteAt_append h rest (show 33 < 38 by decide),
    byteAt_append h rest (show 34 < 38 by decide), byteAt_append h rest (show 35 < 38 by decide),
    blockAt_append h rest (show 1 + 16 ≤ 38 by decide),
    blockAt_append h rest (show 17 + 16 ≤ 38 by decide)]

/-- A header that has room for the checksum behind the fixed fields. -/
theorem exists_parts (h : 42 ≤ header.length) :
    ∃ fixed mid chk, fixed.length = 38 ∧ chk.length = 4 ∧ header = fixed ++ mid ++ chk := by
  refine ⟨header.take 38, (header.drop 38).take (header.length - 42), header.drop (header.length - 4),
    ?_, ?_, ?_⟩
  · rw [List.length_take]
    omega
  · rw [List.length_drop]
    omega
  · have hchk : header.drop (header.length - 4) = (header.drop 38).drop (header.length - 42) := by
      rw [List.drop_drop]
      congr 1
      omega
    rw [hchk, List.append_assoc, List.take_append_drop, List.take_append_drop]

/-- The end of `parse_header`, for a command with a target. -/
theorem parseTarget_eq_ok (hfixed : fixed.length = 38) {rest : Bytes} :
    (do
      let network ← networkOf (byteAt fixed 37)
      let ((address, port), _) ← AddrCodec.VMESS.read.run rest
      return requestOf (fixed ++ rest) ⟨network, address, port⟩ false) = Except.ok req ↔
      ∃ network address port rest', networkOf (byteAt fixed 37) = .ok network ∧
        AddrCodec.VMESS.read.run rest = .ok ((address, port), rest') ∧
        req = requestOf fixed ⟨network, address, port⟩ false := by
  rcases networkOf (byteAt fixed 37) with e | network
  · simp [bind, Except.bind]
  · rcases AddrCodec.VMESS.read.run rest with e | ⟨⟨address, port⟩, rest'⟩
    · simp [bind, Except.bind]
    · simp only [bind, Except.bind, pure, Except.pure, requestOf_append hfixed, Except.ok.injEq]
      constructor
      · rintro rfl
        exact ⟨network, address, port, rest', rfl, rfl, rfl⟩
      · rintro ⟨_, _, _, _, rfl, he, rfl⟩
        obtain ⟨he, -⟩ := Prod.mk.inj he
        obtain ⟨rfl, rfl⟩ := Prod.mk.inj he
        rfl

/-- What `parse_header` asks of the parts. -/
theorem parseHeader_parts (hfixed : fixed.length = 38) (hchk : chk.length = 4) :
    parseHeader (fixed ++ mid ++ chk) = .ok req ↔
      fnv1a (fixed ++ mid) = u32OfBe chk ∧ byteAt fixed 0 = 1 ∧
        (byteAt fixed 37 = cmdMux ∧
            req = requestOf fixed (.tcp (.ip (.v4 #v[127, 0, 0, 1])) 0) true ∨
          ∃ network address port rest, networkOf (byteAt fixed 37) = .ok network ∧
            AddrCodec.VMESS.read.run (mid ++ chk) = .ok ((address, port), rest) ∧
            req = requestOf fixed ⟨network, address, port⟩ false) := by
  have hlen : (fixed ++ mid ++ chk).length - 4 = (fixed ++ mid).length := by
    rw [List.length_append, hchk]
    omega
  have htake : (fixed ++ mid ++ chk).take (fixed ++ mid).length = fixed ++ mid := List.take_left
  have hdrop : (fixed ++ mid ++ chk).drop (fixed ++ mid).length = chk := List.drop_left
  have htarget : (fixed ++ (mid ++ chk)).drop 38 = mid ++ chk := by
    rw [← hfixed, List.drop_left]
  have hlong : ¬ (fixed ++ mid ++ chk).length < 38 := by
    simp only [List.length_append]
    omega
  rw [parseHeader, if_neg hlong, checksum, hlen, htake, hdrop, List.append_assoc,
    byteAt_append hfixed _ (show 0 < 38 by decide), byteAt_append hfixed _ (show 37 < 38 by decide),
    htarget]
  by_cases hsum : fnv1a (fixed ++ mid) = u32OfBe chk
  · by_cases hver : byteAt fixed 0 = 1
    · rw [if_neg (not_not.mpr hsum), if_neg (not_not.mpr hver)]
      simp only [hsum, hver, true_and]
      by_cases hcmd : byteAt fixed 37 = cmdMux
      · rw [if_pos hcmd, requestOf_append hfixed]
        simp only [hcmd, networkOf_cmdMux, reduceCtorEq, false_and, exists_false, or_false, true_and,
          Except.ok.injEq]
        exact eq_comm
      · rw [if_neg hcmd]
        simp only [hcmd, false_and, false_or]
        exact parseTarget_eq_ok hfixed
    · rw [if_neg (not_not.mpr hsum), if_pos hver]
      simp [hver]
  · rw [if_pos hsum]
    simp [hsum]

/-- A header of the form is accepted, and its fields end before the checksum. -/
theorem HeaderOf.accepted {pad : Bytes} (h : HeaderOf header req pad) :
    parseHeader header = .ok req ∧ FieldsApart header := by
  obtain ⟨fixed, addr, hfixed, hheader, hver, hfields⟩ := h
  obtain ⟨chk, hchk, hsum⟩ : ∃ chk, chk = u32ToBe (fnv1a (fixed ++ addr ++ pad)).toNat ∧
      fnv1a (fixed ++ (addr ++ pad)) = u32OfBe chk := by
    refine ⟨_, rfl, UInt32.toNat_inj.mp ?_⟩
    rw [u32OfBe_toBe (UInt32.toNat_lt _), List.append_assoc]
  have hlen : chk.length = 4 := by
    rw [hchk]
    rfl
  rw [← hchk, List.append_assoc fixed] at hheader
  subst hheader
  have hbyte : byteAt (fixed ++ (addr ++ pad) ++ chk) 37 = byteAt fixed 37 := by
    rw [List.append_assoc, byteAt_append hfixed _ (by decide)]
  have hdrop : (fixed ++ (addr ++ pad) ++ chk).drop 38 = addr ++ (pad ++ chk) := by
    rw [← hfixed, List.append_assoc, List.drop_left, List.append_assoc]
  have hlong : 42 ≤ (fixed ++ (addr ++ pad) ++ chk).length := by
    simp only [List.length_append]
    omega
  rw [parseHeader_parts hfixed hlen, FieldsApart, hbyte, hdrop]
  rcases hfields with ⟨hcmd, -, hreq⟩ | ⟨network, address, port, hnet, hread, hreq⟩
  · exact ⟨⟨hsum, hver, .inl ⟨hcmd, hreq⟩⟩, hlong, fun hne => absurd hcmd hne⟩
  · -- the target is read from its own bytes, whatever follows
    have hall : AddrCodec.VMESS.read.run (addr ++ (pad ++ chk)) =
        .ok ((address, port), [] ++ (pad ++ chk)) :=
      (incremental_read .VMESS).ok_append hread (pad ++ chk)
    refine ⟨⟨hsum, hver, .inr ⟨network, address, port, pad ++ chk, hnet, ?_, hreq⟩⟩, hlong, ?_⟩
    · rw [List.append_assoc, hall, List.nil_append]
    · intro _ target rest hrest
      rw [hall] at hrest
      obtain ⟨-, rfl⟩ := Prod.mk.inj (Except.ok.inj hrest)
      simp only [List.nil_append, List.length_append]
      omega

end Form

/-- **The headers that are accepted.**  A byte string is accepted, and the fields that are
read end before the checksum, exactly if it is of the form: fixed fields, target, padding
of any length, and the checksum.  The request is what the fields say. -/
theorem parseHeader_iff (header : Bytes) (req : Request) :
    parseHeader header = .ok req ∧ FieldsApart header ↔ ∃ pad, HeaderOf header req pad := by
  constructor
  · rintro ⟨hparse, hlen, hapart⟩
    obtain ⟨fixed, mid, chk, hfixed, hchk, rfl⟩ := exists_parts hlen
    obtain ⟨hsum, hver, hfields⟩ := (parseHeader_parts hfixed hchk).mp hparse
    have hend : chk = u32ToBe (fnv1a (fixed ++ mid)).toNat := by
      rw [hsum, u32ToBe_ofBe hchk]
    rcases hfields with ⟨hcmd, hreq⟩ | ⟨network, address, port, rest, hnet, hread, hreq⟩
    · exact ⟨mid, fixed, [], hfixed, by rw [List.append_nil, ← hend], hver, .inl ⟨hcmd, rfl, hreq⟩⟩
    · have hcmd : byteAt (fixed ++ mid ++ chk) 37 ≠ cmdMux := by
        rw [List.append_assoc, byteAt_append hfixed _ (by decide)]
        intro hcmd
        rw [hcmd, networkOf_cmdMux] at hnet
        cases hnet
      have hdrop : (fixed ++ mid ++ chk).drop 38 = mid ++ chk := by
        rw [← hfixed, List.append_assoc, List.drop_left]
      have hrest : 4 ≤ rest.length := hapart hcmd _ _ (hdrop ▸ hread)
      -- the target is read from bytes that end before the checksum
      obtain ⟨addr, happ, hall⟩ := (incremental_read .VMESS).ok_local hread
      obtain ⟨pad, rfl, rfl⟩ : ∃ pad, rest = pad ++ chk ∧ mid = addr ++ pad := by
        rcases List.append_eq_append_iff.mp happ with ⟨tail, haddr, hchk'⟩ | ⟨pad, hmid, hrest'⟩
        · have htail : tail = [] := by
            rw [hchk', List.length_append] at hchk
            exact List.eq_nil_of_length_eq_zero (by omega)
          subst htail
          exact ⟨[], hchk'.symm, by rw [haddr, List.append_nil, List.append_nil]⟩
        · exact ⟨pad, hrest', hmid⟩
      have haddr := hall []
      rw [List.append_nil] at haddr
      rw [← List.append_assoc] at hend
      exact ⟨pad, fixed, addr, hfixed, by rw [← hend]; simp, hver,
        .inr ⟨network, address, port, hnet, haddr, hreq⟩⟩
  · rintro ⟨pad, hform⟩
    exact hform.accepted

/-- A mux header that announces a byte of padding and has none. -/
def unpadded : Bytes :=
  [1] ++ List.replicate 32 0 ++ [0, 0, 0x10, 0, cmdMux] ++ [199, 253, 107, 13]

/-- A header for port 80 of an IPv4 target that has the checksum for its address. -/
def overlapping : Bytes :=
  [1] ++ List.replicate 32 0 ++ [0, 0, 0, 0, cmdTcp] ++ [0, 80, 1] ++ [214, 133, 104, 58]

/-- **The parser is lenient.**  The padding that is announced may be missing, and the target
may reach into the checksum. -/
theorem parseHeader_lenient :
    (∃ req, parseHeader unpadded = .ok req ∧
        ¬ ∃ pad, HeaderOf unpadded req pad ∧ pad.length = (byteAt unpadded 35 >>> 4).toNat) ∧
      ∃ req, parseHeader overlapping = .ok req ∧
        req.dest = .tcp (.ip (.v4 #v[214, 133, 104, 58])) 80 ∧
        ¬ ∃ pad, HeaderOf overlapping req pad := by
  refine ⟨⟨_, (by decide +kernel : _ = Except.ok (requestOf unpadded
    (.tcp (.ip (.v4 #v[127, 0, 0, 1])) 0) true)), ?_⟩, ⟨_, (by decide +kernel : _ = Except.ok
    (requestOf overlapping (.tcp (.ip (.v4 #v[214, 133, 104, 58])) 80) false)), rfl, ?_⟩⟩
  · rintro ⟨pad, ⟨fixed, addr, hfixed, hheader, -⟩, hpad⟩
    have hlen := congrArg List.length hheader
    have hannounced : (byteAt unpadded 35 >>> 4).toNat = 1 := by decide
    have hunpadded : unpadded.length = 42 := rfl
    have hsum : ∀ n, (u32ToBe n).length = 4 := fun _ => rfl
    rw [hannounced] at hpad
    simp only [List.length_append, hunpadded, hsum] at hlen
    omega
  · rintro ⟨pad, hform⟩
    have hread : AddrCodec.VMESS.read.run (overlapping.drop 38) =
        .ok ((.ip (.v4 #v[214, 133, 104, 58]), 80), []) := by decide +kernel
    exact absurd (hform.accepted.2.2 (by decide) _ _ hread) (by decide)

end XrayRs.Vmess
