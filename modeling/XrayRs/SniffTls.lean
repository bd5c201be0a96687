import XrayRs.Sniff

/-! # The server name of a TLS handshake

The records that `sniff_tls` (`kernel/src/route/sniff.rs`) is made for: a `ClientHello`
with its fields, its extensions and the entries of a name list, each behind its length.
On such a record the sniffer finds the host of the first extension that names one
(`sniffTls_exact`); on a part of it, and where a length is wrong, it finds nothing. -/

namespace XrayRs

open ByteWords

/-! ## What is in a name list -/

/-- An entry of a name list. -/
structure ServerName where
  nameType : UInt8
  name : Bytes
  fits : name.length < 65536

/-- Its bytes. -/
def ServerName.bytes (n : ServerName) : Bytes := n.nameType :: sized16 n.name

/-- The bytes spell a host: UTF-8, without blanks and control bytes, and without a dot at
the end. -/
def SpellsHost (bytes : Bytes) (host : String) : Prop :=
  fromUtf8 bytes = some host ∧ (∀ b ∈ bytes, 0x20 < b) ∧ bytes.getLast? ≠ some 0x2e

/-- **The body of a `server_name` extension**: a list with the right length, whose first
entry for a host, and those before it, are complete, and whose first host is spelled
well. -/
def NamesHost (body : Bytes) (host : String) : Prop :=
  ∃ (others : List ServerName) (entry : ServerName) (rest : Bytes),
    (∀ n ∈ others, n.nameType ≠ 0) ∧ entry.nameType = 0 ∧ SpellsHost entry.name host ∧
      (others.flatMap ServerName.bytes ++ entry.bytes ++ rest).length < 65536 ∧
      body = sized16 (others.flatMap ServerName.bytes ++ entry.bytes ++ rest)

section Names

variable {d : Bytes} {host : String}

theorem readNames_bytes (n : ServerName) (rest : Bytes) :
    readNames (n.bytes ++ rest) =
      if n.nameType = 0 then
        if n.name.any (· ≤ 0x20) || n.name.getLast? == some 0x2e then none else fromUtf8 n.name
      else readNames rest := by
  obtain ⟨l1, l0, hfield, hlen⟩ := sized16_eq n.fits rest
  have hbytes : n.bytes ++ rest = n.nameType :: l1 :: l0 :: (n.name ++ rest) := by
    rw [ServerName.bytes, List.cons_append, hfield]
  rw [hbytes, readNames, hlen]
  simp only [List.length_append, Nat.le_add_right, if_true, List.take_left, List.drop_left]

/-- A loop that goes on has a whole entry in front of it. -/
theorem readNames_cases (h : readNames d = some host) :
    ∃ n rest, d = ServerName.bytes n ++ rest := by
  unfold readNames at h
  split at h
  · cases h
  · next nameType l1 l0 d =>
    dsimp only at h
    by_cases hle : (u16OfBe l1 l0).toNat ≤ d.length
    · obtain ⟨hfits, hd⟩ := exists_sized16 hle
      exact ⟨⟨nameType, _, hfits⟩, _, by rw [ServerName.bytes, List.cons_append, hd]⟩
    · rw [if_neg hle] at h
      cases h
  · cases h

/-- The check on a name. -/
theorem spellsHost_iff {bytes : Bytes} :
    (if bytes.any (· ≤ 0x20) || bytes.getLast? == some 0x2e then none else fromUtf8 bytes) =
      some host ↔
      SpellsHost bytes host := by
  unfold SpellsHost
  by_cases hblank : ∀ b ∈ bytes, 0x20 < b
  · have hany : bytes.any (· ≤ 0x20) = false := by
      apply List.any_eq_false.mpr
      intro b hb
      simpa using hblank b hb
    by_cases hdot : bytes.getLast? = some 0x2e
    · simp [hdot]
    · have hpass :
        (bytes.any (· ≤ 0x20) || bytes.getLast? == some 0x2e) = false := by simp [hany, hdot]
      rw [hpass]
      exact ⟨fun h => ⟨h, hblank, hdot⟩, fun h => h.1⟩
  · have hany : bytes.any (· ≤ 0x20) = true := by
      apply List.any_eq_true.mpr
      push Not at hblank
      simpa using hblank
    simp [hany, hblank]

/-- **The loop over the entries.** -/
theorem readNames_iff : readNames d = some host ↔
    ∃ (others : List ServerName) (entry : ServerName) (rest : Bytes),
      (∀ n ∈ others, n.nameType ≠ 0) ∧ entry.nameType = 0 ∧ SpellsHost entry.name host ∧
        d = others.flatMap ServerName.bytes ++ entry.bytes ++ rest := by
  constructor
  · intro h
    -- an entry that is read is shorter than what it is read from
    induction hd : d.length using Nat.strongRecOn generalizing d with
    | ind len ih =>
      obtain ⟨n, rest, rfl⟩ := readNames_cases h
      rw [readNames_bytes] at h
      by_cases hhost : n.nameType = 0
      · rw [if_pos hhost] at h
        exact ⟨[], n, rest, by simp, hhost, spellsHost_iff.mp h, rfl⟩
      · rw [if_neg hhost] at h
        have hlt : rest.length < len := by
          rw [← hd, ServerName.bytes, List.cons_append, List.length_cons, List.length_append]
          omega
        obtain ⟨others, entry, rest', hothers, hentry, hspells, rfl⟩ := ih _ hlt h rfl
        refine ⟨n :: others, entry, rest', ?_, hentry, hspells, by simp⟩
        exact List.forall_mem_cons.mpr ⟨hhost, hothers⟩
  · rintro ⟨others, entry, rest, hothers, hentry, hspells, rfl⟩
    induction others with
    | nil =>
      rw [List.flatMap_nil, List.nil_append, readNames_bytes, if_pos hentry]
      exact spellsHost_iff.mpr hspells
    | cons n others ih =>
      obtain ⟨hn, hothers⟩ := List.forall_mem_cons.mp hothers
      rw [List.flatMap_cons, List.append_assoc, List.append_assoc, readNames_bytes, if_neg hn,
        ← List.append_assoc]
      exact ih hothers

/-- **A name list** is read as it is written. -/
theorem readServerName_iff {body : Bytes} : readServerName body = some host ↔
    NamesHost body host := by
  constructor
  · intro h
    unfold readServerName at h
    split at h
    · next l1 l0 d =>
      split at h
      · next hlen =>
        obtain ⟨others, entry, rest, hothers, hentry, hspells, hd⟩ := readNames_iff.mp h
        obtain ⟨hfits, hbytes⟩ := exists_sized16 (Nat.le_of_eq hlen.symm)
        rw [← hlen, List.take_length, List.drop_length, List.append_nil] at hbytes
        rw [← hlen, List.take_length] at hfits
        exact ⟨others, entry, rest, hothers, hentry, hspells, hd ▸ hfits, hd ▸ hbytes⟩
      · cases h
    · cases h
  · rintro ⟨others, entry, rest, hothers, hentry, hspells, hfits, rfl⟩
    obtain ⟨l1, l0, hfield, hlen⟩ := sized16_eq hfits []
    rw [List.append_nil, List.append_nil] at hfield
    rw [hfield, readServerName, if_pos hlen.symm]
    exact readNames_iff.mpr ⟨others, entry, rest, hothers, hentry, hspells, rfl⟩

end Names

/-! ## Extensions -/

/-- An extension. -/
structure Extension where
  kind : UInt16
  body : Bytes
  fits : body.length < 65536

namespace Extension

/-- Its bytes. -/
def bytes (e : Extension) : Bytes := u16ToBe e.kind ++ sized16 e.body

/-- The extension names a host. -/
def Names (e : Extension) (host : String) : Prop := e.kind = 0 ∧ NamesHost e.body host

/-- What the loop of `read_client_hello` makes of it. -/
def read (e : Extension) : Option String := if e.kind = 0 then readServerName e.body else none

theorem read_eq_some {e : Extension} {host : String} : e.read = some host ↔ e.Names host := by
  unfold read Names
  rw [← readServerName_iff]
  by_cases h : e.kind = 0
  · simp [h]
  · simp [h]

theorem read_eq_none {e : Extension} : e.read = none ↔ ∀ host, ¬ e.Names host := by
  rw [Option.eq_none_iff_forall_ne_some]
  exact forall_congr' fun _ => not_congr read_eq_some

end Extension

section Extensions

variable {data : Bytes} {host : String}

theorem readExtensions_bytes (e : Extension) (rest : Bytes) :
    readExtensions (e.bytes ++ rest) = e.read.orElse fun _ => readExtensions rest := by
  obtain ⟨l1, l0, hfield, hlen⟩ := sized16_eq e.fits rest
  have hkind :
    u16OfBe (UInt8.ofNat (e.kind.toNat / 256)) (UInt8.ofNat (e.kind.toNat % 256)) = e.kind :=
    u16OfBe_toBe e.kind
  have hbytes : e.bytes ++ rest = UInt8.ofNat (e.kind.toNat / 256) ::
      UInt8.ofNat (e.kind.toNat % 256) :: l1 :: l0 :: (e.body ++ rest) := by
    rw [Extension.bytes, List.append_assoc, hfield]
    rfl
  rw [hbytes, readExtensions, hkind, hlen]
  simp only [List.length_append, Nat.le_add_right, if_true, List.take_left, List.drop_left]
  rw [← Extension.read]
  cases e.read <;> rfl

theorem readExtensions_cases (h : readExtensions data = some host) :
    ∃ e rest, data = Extension.bytes e ++ rest := by
  unfold readExtensions at h
  split at h
  · cases h
  · next e1 e0 l1 l0 data =>
    dsimp only at h
    by_cases hle : (u16OfBe l1 l0).toNat ≤ data.length
    · obtain ⟨hfits, hdata⟩ := exists_sized16 hle
      refine ⟨⟨u16OfBe e1 e0, _, hfits⟩, data.drop (u16OfBe l1 l0).toNat, ?_⟩
      rw [Extension.bytes, List.append_assoc, ← hdata, u16ToBe_ofBe]
      rfl
    · rw [if_neg hle] at h
      cases h
  · cases h

/-- **The loop over the extensions** of a complete list. -/
theorem readExtensions_flatMap (exts : List Extension) :
    readExtensions (exts.flatMap Extension.bytes) = exts.findSome? Extension.read := by
  induction exts with
  | nil => rw [List.flatMap_nil, readExtensions, List.findSome?_nil]
  | cons e exts ih =>
    rw [List.flatMap_cons, readExtensions_bytes, ih, List.findSome?_cons]
    cases e.read <;> rfl

/-- What is behind the extension that names the host need not be a list. -/
theorem readExtensions_iff : readExtensions data = some host ↔
    ∃ (before : List Extension) (e : Extension) (rest : Bytes),
      (∀ e' ∈ before, ∀ host', ¬ e'.Names host') ∧
      e.Names host ∧ data = before.flatMap Extension.bytes ++ e.bytes ++ rest := by
  constructor
  · intro h
    induction hlen : data.length using Nat.strongRecOn generalizing data with
    | ind len ih =>
      obtain ⟨e, rest, rfl⟩ := readExtensions_cases h
      rw [readExtensions_bytes] at h
      cases hread : e.read with
      | some host' =>
        rw [hread] at h
        obtain rfl : host' = host := Option.some.inj h
        exact ⟨[], e, rest, by simp, Extension.read_eq_some.mp hread, rfl⟩
      | none =>
        rw [hread] at h
        have hlt : rest.length < len := by
          rw [← hlen, Extension.bytes, List.length_append, List.length_append, u16ToBe_length]
          omega
        obtain ⟨before, e', rest', hbefore, he', rfl⟩ := ih _ hlt h rfl
        refine ⟨e :: before, e', rest', ?_, he', by simp⟩
        exact List.forall_mem_cons.mpr ⟨Extension.read_eq_none.mp hread, hbefore⟩
  · rintro ⟨before, e, rest, hbefore, he, rfl⟩
    induction before with
    | nil =>
      rw [List.flatMap_nil, List.nil_append, readExtensions_bytes, Extension.read_eq_some.mpr he]
      rfl
    | cons e' before ih =>
      obtain ⟨he', hbefore⟩ := List.forall_mem_cons.mp hbefore
      rw [List.flatMap_cons, List.append_assoc, List.append_assoc, readExtensions_bytes,
        Extension.read_eq_none.mpr he', ← List.append_assoc]
      exact ih hbefore

end Extensions

/-! ## The handshake, field by field -/

theorem getFrom_append {n : Nat} {front : Bytes} (h : front.length = n) (rest : Bytes) :
    getFrom n (front ++ rest) = some rest := by
  subst h
  simp [getFrom]

theorem getFrom_eq_some {n : Nat} {s rest : Bytes} (h : getFrom n s = some rest) :
    n ≤ s.length ∧ rest = s.drop n := by
  unfold getFrom at h
  split at h
  · exact ⟨‹_›, (Option.some.inj h).symm⟩
  · cases h

theorem readU16_eq_some {s : Bytes} {n : UInt16} (h : readU16 s = some n) :
    ∃ rest, s = u16ToBe n ++ rest := by
  unfold readU16 at h
  split at h
  · obtain rfl := Option.some.inj h
    exact ⟨_, by rw [u16ToBe_ofBe]; rfl⟩
  · cases h

/-- A number and enough bytes behind it. -/
theorem exists_sized16_of_u16 {n : UInt16} {d : Bytes} (h : n.toNat ≤ d.length) :
    (d.take n.toNat).length < 65536 ∧
      u16ToBe n ++ d = sized16 (d.take n.toNat) ++ d.drop n.toNat := by
  rw [← u16OfBe_toBe n] at h ⊢
  rw [u16ToBe_ofBe]
  exact exists_sized16 h

/-- `read_client_hello`, from the extensions' length on. -/
def readLists (data : Bytes) : Option String := do
  let extensionsLen := (← readU16 data).toNat
  let data ← getFrom 2 data
  if extensionsLen ≠ data.length then none
  readExtensions data

/-- `read_client_hello`, from the compression methods on. -/
def readCompression (data : Bytes) : Option String := do
  let compressionLen := (← data[0]?).toNat
  readLists (← getFrom (1 + compressionLen) data)

/-- `read_client_hello`, from the cipher suites on. -/
def readSuites (data : Bytes) : Option String := do
  let cipherSuiteLen := (← readU16 data).toNat
  if cipherSuiteLen % 2 = 1 then none
  readCompression (← getFrom (2 + cipherSuiteLen) data)

theorem readClientHello_eq (data : Bytes) :
    readClientHello data = if data.length < 42 then none else
      data[38]?.bind fun l =>
        if 32 < l.toNat then none else (getFrom (39 + l.toNat) data).bind readSuites := by
  unfold readClientHello readSuites readCompression readLists
  simp only [bind, Option.bind_none]

section Fields

variable {data rest : Bytes} {host : String}

theorem readLists_u16 (n : UInt16) (rest : Bytes) :
    readLists (u16ToBe n ++ rest) =
      if n.toNat = rest.length then readExtensions rest else none := by
  have hn : readU16 (u16ToBe n ++ rest) = some n := congrArg some (u16OfBe_toBe n)
  simp only [readLists, hn, getFrom_append (u16ToBe_length n), bind,
    Option.bind_some, Option.bind_none]
  by_cases h : n.toNat = rest.length
  · simp [h]
  · simp [h]

theorem readLists_cases (h : readLists data = some host) :
    ∃ exts : Bytes, exts.length < 65536 ∧ data = sized16 exts ∧
      readExtensions exts = some host := by
  obtain ⟨n, hn, -⟩ := Option.bind_eq_some_iff.mp h
  obtain ⟨exts, rfl⟩ := readU16_eq_some hn
  rw [readLists_u16] at h
  by_cases hlen : n.toNat = exts.length
  · rw [if_pos hlen] at h
    obtain ⟨hfits, hbytes⟩ := exists_sized16_of_u16 (Nat.le_of_eq hlen)
    rw [hlen, List.take_length] at hfits hbytes
    rw [List.drop_length, List.append_nil] at hbytes
    exact ⟨exts, hfits, hbytes, h⟩
  · rw [if_neg hlen] at h
    cases h

theorem readCompression_sized {field : Bytes} (hfits : field.length < 256) :
    readCompression (sized8 field ++ rest) = readLists rest := by
  obtain ⟨l, hfield, hlen⟩ := sized8_eq hfits rest
  have hfront : (l :: field).length = 1 + l.toNat := by
    rw [List.length_cons, hlen, Nat.add_comm]
  rw [hfield]
  simp only [readCompression, List.getElem?_cons_zero, bind, Option.bind_some]
  rw [← List.cons_append, getFrom_append hfront]
  rfl

theorem readCompression_cases (h : readCompression data = some host) :
    ∃ field rest : Bytes, field.length < 256 ∧ data = sized8 field ++ rest ∧
      readLists rest = some host := by
  unfold readCompression at h
  obtain ⟨l, hl, h⟩ := Option.bind_eq_some_iff.mp h
  obtain ⟨rest, hrest, h⟩ := Option.bind_eq_some_iff.mp h
  obtain ⟨hle, rfl⟩ := getFrom_eq_some hrest
  cases data with
  | nil => cases hl
  | cons l' data =>
    obtain rfl := Option.some.inj hl
    have hle' : l'.toNat ≤ data.length := by
      rw [List.length_cons] at hle
      omega
    obtain ⟨hfits, hbytes⟩ := exists_sized8 hle'
    refine ⟨_, _, hfits, hbytes, ?_⟩
    rwa [Nat.add_comm, List.drop_succ_cons] at h

theorem readSuites_odd {n : UInt16} (hodd : n.toNat % 2 = 1) :
    readSuites (u16ToBe n ++ rest) = none := by
  have hn : readU16 (u16ToBe n ++ rest) = some n := congrArg some (u16OfBe_toBe n)
  simp [readSuites, hn, hodd]

theorem readSuites_sized {field : Bytes} (hfits : field.length < 65536)
    (heven : field.length % 2 = 0) :
    readSuites (sized16 field ++ rest) = readCompression rest := by
  obtain ⟨l1, l0, hfield, hlen⟩ := sized16_eq hfits rest
  have hfront : (l1 :: l0 :: field).length = 2 + (u16OfBe l1 l0).toNat := by
    rw [List.length_cons, List.length_cons, hlen]
    omega
  have hget : getFrom (2 + (u16OfBe l1 l0).toNat) (l1 :: l0 :: (field ++ rest)) = some rest :=
    getFrom_append hfront rest
  have hpass : ¬ (u16OfBe l1 l0).toNat % 2 = 1 := by omega
  rw [hfield]
  simp only [readSuites, readU16, bind, Option.bind_some, if_neg hpass, hget]

theorem readSuites_cases (h : readSuites data = some host) :
    ∃ field rest : Bytes, field.length < 65536 ∧ field.length % 2 = 0 ∧
      data = sized16 field ++ rest ∧
      readCompression rest = some host := by
  unfold readSuites at h
  obtain ⟨n, hn, h⟩ := Option.bind_eq_some_iff.mp h
  by_cases hodd : n.toNat % 2 = 1
  · simp [hodd] at h
  simp only [if_neg hodd] at h
  obtain ⟨rest, hrest, h⟩ := Option.bind_eq_some_iff.mp h
  obtain ⟨hle, rfl⟩ := getFrom_eq_some hrest
  obtain ⟨data, rfl⟩ := readU16_eq_some hn
  have hle' : n.toNat ≤ data.length := by
    rw [List.length_append, u16ToBe_length] at hle
    omega
  obtain ⟨hfits, hbytes⟩ := exists_sized16_of_u16 hle'
  refine ⟨_, _, hfits, ?_, hbytes, ?_⟩
  · rw [List.length_take_of_le hle']
    omega
  · rwa [← List.drop_drop] at h

end Fields

/-- The fields of a `ClientHello` before its extensions.  The first is the handshake
header (4), the version (2) and the random (32). -/
structure HelloFront where
  header : Bytes
  sessionId : Bytes
  suites : Bytes
  compression : Bytes
  header_length : header.length = 38
  sessionId_le : sessionId.length ≤ 32
  suites_lt : suites.length < 65536
  suites_even : suites.length % 2 = 0
  compression_lt : compression.length < 256

/-- Their bytes. -/
def HelloFront.bytes (f : HelloFront) : Bytes :=
  f.header ++ (sized8 f.sessionId ++ (sized16 f.suites ++ sized8 f.compression))

section Front

variable {data header sessionId rest : Bytes} {host : String}

/-- The session id is behind the 38 bytes of the header. -/
theorem readClientHello_session (hheader : header.length = 38) (hsession : sessionId.length ≤ 32) :
    readClientHello (header ++ (sized8 sessionId ++ rest)) =
      if (header ++ (sized8 sessionId ++ rest)).length < 42 then none else readSuites rest := by
  obtain ⟨l, hfield, hlen⟩ := sized8_eq (show sessionId.length < 256 by omega) rest
  have hat : (header ++ l :: (sessionId ++ rest))[38]? = some l := by
    rw [← hheader, List.getElem?_append_right (Nat.le_refl _), Nat.sub_self]
    rfl
  have hfront : (header ++ l :: sessionId).length = 39 + l.toNat := by
    rw [List.length_append, List.length_cons]
    omega
  have hget : getFrom (39 + l.toNat) (header ++ l :: (sessionId ++ rest)) = some rest := by
    have h := getFrom_append hfront rest
    rwa [List.append_assoc] at h
  rw [hfield, readClientHello_eq, hat, Option.bind_some,
    if_neg (show ¬ 32 < l.toNat by omega), hget]
  rfl

theorem readClientHello_front (f : HelloFront) (rest : Bytes) :
    readClientHello (f.bytes ++ rest) = readLists rest := by
  have hheader := f.header_length
  have hlong : ¬ (f.header ++ (sized8 f.sessionId ++
      (sized16 f.suites ++ (sized8 f.compression ++ rest)))).length < 42 := by
    simp only [sized16, sized8, List.length_append, u16ToBe_length, List.length_cons]
    omega
  rw [HelloFront.bytes, List.append_assoc, List.append_assoc, List.append_assoc,
    readClientHello_session f.header_length f.sessionId_le, if_neg hlong,
    readSuites_sized f.suites_lt f.suites_even, readCompression_sized f.compression_lt]

theorem readClientHello_extensions (f : HelloFront) {exts : Bytes} (hfits : exts.length < 65536) :
    readClientHello (f.bytes ++ sized16 exts) = readExtensions exts := by
  have hlen : (UInt16.ofNat exts.length).toNat = exts.length := by
    rw [UInt16.toNat_ofNat', Nat.mod_eq_of_lt hfits]
  rw [readClientHello_front, sized16, readLists_u16, if_pos hlen]

/-- What is read whole has the fields of a `ClientHello`. -/
theorem readClientHello_cases (h : readClientHello data = some host) :
    ∃ (f : HelloFront) (exts : Bytes), exts.length < 65536 ∧ data = f.bytes ++ sized16 exts ∧
      readExtensions exts = some host := by
  rw [readClientHello_eq] at h
  by_cases hshort : data.length < 42
  · rw [if_pos hshort] at h
    cases h
  rw [if_neg hshort] at h
  obtain ⟨l, hl, h⟩ := Option.bind_eq_some_iff.mp h
  by_cases hlong : 32 < l.toNat
  · rw [if_pos hlong] at h
    cases h
  rw [if_neg hlong] at h
  obtain ⟨rest, hrest, h⟩ := Option.bind_eq_some_iff.mp h
  obtain ⟨hle, rfl⟩ := getFrom_eq_some hrest
  have hsplit : data = data.take 38 ++ l :: data.drop 39 :=
    (Delimited.take_append_cons_drop hl).symm
  have hle' : l.toNat ≤ (data.drop 39).length := by
    rw [List.length_drop]
    omega
  obtain ⟨-, hsession⟩ := exists_sized8 hle'
  rw [List.drop_drop] at hsession
  -- what is behind the session id, field by field
  obtain ⟨suites, rest, hsuites, heven, hdrop, hafter⟩ := readSuites_cases h
  obtain ⟨compression, rest, hcompression, rfl, hlists⟩ := readCompression_cases hafter
  obtain ⟨exts, hexts, rfl, hread⟩ := readLists_cases hlists
  refine ⟨⟨data.take 38, (data.drop 39).take l.toNat, suites, compression, ?_, ?_, hsuites, heven,
    hcompression⟩, exts, hexts, ?_, hread⟩
  · rw [List.length_take]
    omega
  · rw [List.length_take_of_le hle']
    omega
  · rw [HelloFront.bytes, List.append_assoc, List.append_assoc,
      List.append_assoc, ← hdrop, ← hsession]
    exact hsplit

end Front

/-! ## Records -/

/-- A `ClientHello`, whose bytes fit a record. -/
structure ClientHello extends HelloFront where
  extensions : List Extension
  fits : (toHelloFront.bytes ++ sized16 (extensions.flatMap Extension.bytes)).length < 65536

/-- Its bytes. -/
def ClientHello.bytes (h : ClientHello) : Bytes :=
  h.toHelloFront.bytes ++ sized16 (h.extensions.flatMap Extension.bytes)

/-- A handshake record of TLS. -/
def tlsRecord (minor : UInt8) (hello : Bytes) : Bytes := 0x16 :: 3 :: minor :: sized16 hello

section Record

variable {minor : UInt8} {hello payload : Bytes} {host : String}

theorem sniffTls_record (hfits : hello.length < 65536) (trailing : Bytes) :
    sniffTls (tlsRecord minor hello ++ trailing) = readClientHello hello := by
  obtain ⟨l1, l0, hfield, hlen⟩ := sized16_eq hfits trailing
  have hbytes : tlsRecord minor hello ++ trailing = 0x16 :: 3 :: minor :: l1 :: l0 ::
      (hello ++ trailing) := by
    rw [tlsRecord, List.cons_append, List.cons_append, List.cons_append, hfield]
  have hlong : ¬ (hello ++ trailing).length < hello.length := by
    rw [List.length_append]
    omega
  rw [hbytes, sniffTls, if_neg (by decide), if_neg (by decide), hlen]
  simp only [if_neg hlong, List.take_left]

/-- Nothing else is a record. -/
theorem sniffTls_cons {c : UInt8} (h : c ≠ 0x16) (rest : Bytes) : sniffTls (c :: rest) = none := by
  unfold sniffTls
  split
  · next heq =>
    rw [← (List.cons.inj heq).1]
    exact if_pos h
  · rfl

/-- A part of a record names nobody. -/
theorem sniffTls_part (hfits : hello.length < 65536) (hpart : payload <+: tlsRecord minor hello)
    (hne : payload ≠ tlsRecord minor hello) : sniffTls payload = none := by
  obtain ⟨rest, hrest⟩ := hpart
  obtain ⟨l1, l0, hfield, hlen⟩ := sized16_eq hfits []
  rw [List.append_nil, List.append_nil] at hfield
  have hpos : 0 < rest.length := by
    apply List.length_pos_iff.mpr
    rintro rfl
    exact hne (by rw [← hrest, List.append_nil])
  rw [tlsRecord, hfield] at hrest
  unfold sniffTls
  split
  · next t v m l1' l0' d =>
    obtain ⟨rfl, rfl, rfl, rfl, rfl, rfl⟩ : t = 0x16 ∧ v = 3 ∧ m = minor ∧ l1' = l1 ∧ l0' = l0 ∧
        d ++ rest = hello := by
      simpa using hrest
    -- the record's length says that more is to come
    rw [if_neg (by decide), if_neg (by decide)]
    refine if_pos ?_
    rw [hlen, List.length_append]
    omega
  · rfl

theorem sniffTls_cases (h : sniffTls payload = some host) :
    ∃ minor hello trailing, hello.length < 65536 ∧ payload = tlsRecord minor hello ++ trailing ∧
      readClientHello hello = some host := by
  unfold sniffTls at h
  split at h
  · next t v minor l1 l0 d =>
    by_cases ht : t = 0x16
    · by_cases hv : v = 3
      · subst ht hv
        rw [if_neg (by decide), if_neg (by decide)] at h
        by_cases hshort : d.length < (u16OfBe l1 l0).toNat
        · simp [hshort] at h
        · obtain ⟨hfits, hbytes⟩ := exists_sized16 (Nat.not_lt.mp hshort)
          simp only [if_neg hshort] at h
          exact ⟨minor, _, _, hfits, congrArg (0x16 :: 3 :: minor :: ·) hbytes, h⟩
      · rw [if_neg (not_not.mpr ht), if_pos hv] at h
        cases h
    · rw [if_pos ht] at h
      cases h
  · cases h

end Record

/-- Bytes with a wrong length in them: a long session id, an odd list of cipher suites, or
extensions that are not all that is left. -/
inductive Malformed : Bytes → Prop
  | session {header rest : Bytes} {l : UInt8} (hheader : header.length = 38) (hl : 32 < l) :
      Malformed (header ++ l :: rest)
  | suites {header sessionId rest : Bytes} {n : UInt16} (hheader : header.length = 38)
      (hsession : sessionId.length ≤ 32) (hodd : n.toNat % 2 = 1) :
      Malformed (header ++ (sized8 sessionId ++ (u16ToBe n ++ rest)))
  | extensions {rest : Bytes} {n : UInt16} (f : HelloFront) (hn : n.toNat ≠ rest.length) :
      Malformed (f.bytes ++ (u16ToBe n ++ rest))

theorem Malformed.unread {hello : Bytes} (h : Malformed hello) : readClientHello hello = none := by
  cases h with
  | @session header rest l hheader hl =>
    have hat : (header ++ l :: rest)[38]? = some l := by
      rw [← hheader, List.getElem?_append_right (Nat.le_refl _), Nat.sub_self]
      rfl
    rw [readClientHello_eq, hat, Option.bind_some,
      if_pos (show 32 < l.toNat from UInt8.lt_iff_toNat_lt.mp hl), ite_self]
  | @suites header sessionId rest n hheader hsession hodd =>
    rw [readClientHello_session hheader hsession, readSuites_odd hodd, ite_self]
  | extensions f hn => rw [readClientHello_front, readLists_u16, if_neg hn]

theorem readClientHello_bytes (h : ClientHello) :
    readClientHello h.bytes = h.extensions.findSome? Extension.read := by
  have hfits : (h.extensions.flatMap Extension.bytes).length < 65536 := by
    have hall := h.fits
    simp only [sized16, List.length_append, u16ToBe_length] at hall
    omega
  rw [ClientHello.bytes, readClientHello_extensions h.toHelloFront hfits, readExtensions_flatMap]

/-- **The walk over a `ClientHello` is exact.**  In a record with a whole `ClientHello` the
sniffer finds the host of the first extension that names one, whatever is behind the
record, and nothing if none does.  In a part of a record it finds nothing, nor in a record
with a long session id, an odd list of cipher suites or a wrong length of the
extensions. -/
theorem sniffTls_exact :
    (∀ (minor : UInt8) (h : ClientHello) (trailing : Bytes),
      (∀ host, sniffTls (tlsRecord minor h.bytes ++ trailing) = some host ↔
        ∃ before e after, h.extensions = before ++ e :: after ∧ e.Names host ∧
          ∀ e' ∈ before, ∀ host', ¬ e'.Names host') ∧
      (sniffTls (tlsRecord minor h.bytes ++ trailing) = none ↔
        ∀ e ∈ h.extensions, ∀ host, ¬ e.Names host)) ∧
    (∀ (minor : UInt8) (hello payload : Bytes), hello.length < 65536 →
      payload <+: tlsRecord minor hello → payload ≠ tlsRecord minor hello →
        sniffTls payload = none) ∧
    ∀ (minor : UInt8) (hello trailing : Bytes), hello.length < 65536 → Malformed hello →
      sniffTls (tlsRecord minor hello ++ trailing) = none := by
  refine ⟨fun minor h trailing => ?_, fun minor hello payload => sniffTls_part,
    fun minor hello trailing hfits hbad => (sniffTls_record hfits trailing).trans hbad.unread⟩
  have hread :
    sniffTls (tlsRecord minor h.bytes ++ trailing) = h.extensions.findSome? Extension.read :=
    (sniffTls_record h.fits trailing).trans (readClientHello_bytes h)
  -- the first extension that reads as a host, by the lemmas on `findSome?`
  rw [hread]
  constructor
  · intro host
    rw [List.findSome?_eq_some_iff]
    simp only [Extension.read_eq_some, Extension.read_eq_none]
  · rw [List.findSome?_eq_none_iff]
    simp only [Extension.read_eq_none]

/-- The extension for the host `a`, behind another one. -/
def smallHello : ClientHello where
  header := .replicate 38 0
  sessionId := []
  suites := [0, 1]
  compression := [0]
  header_length := by decide
  sessionId_le := by decide
  suites_lt := by decide
  suites_even := by decide
  compression_lt := by decide
  extensions := [⟨5, [], by decide⟩, ⟨0, [0, 4, 0, 0, 1, 0x61], by decide⟩]
  fits := by decide

/-- Its record, with a byte behind it, names the host; cut short by one byte it names
nobody. -/
theorem sniffTls_exact_small :
    sniffTls (tlsRecord 1 smallHello.bytes ++ [7]) = some "a" ∧
      sniffTls ((tlsRecord 1 smallHello.bytes).dropLast) = none := by
  have hnames : Extension.Names ⟨0, [0, 4, 0, 0, 1, 0x61], by decide⟩ "a" :=
    ⟨rfl, [], ⟨0, [0x61], by decide⟩, [], by simp, rfl,
      ⟨by decide, List.forall_mem_singleton.mpr (by decide), by decide⟩, by decide, rfl⟩
  constructor
  · refine ((sniffTls_exact.1 1 smallHello [7]).1 "a").mpr ⟨[⟨5, [], by decide⟩],
      _, [], rfl, hnames, ?_⟩
    intro e he host hnamed
    rw [List.mem_singleton.mp he] at hnamed
    exact absurd hnamed.1 (by decide)
  · exact sniffTls_exact.2.1 1 smallHello.bytes _ smallHello.fits
      (List.dropLast_prefix _) (by decide)

end XrayRs
