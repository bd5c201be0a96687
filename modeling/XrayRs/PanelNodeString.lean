import XrayRs.AssocList
import XrayRs.Delimited
import XrayRs.PanelInbound
import XrayRs.Text

/-! # The V2Ray server string

`parse_v2ray_node_response` (`saas/src/sspanel/mod.rs`) takes a node from a text of the
form `addr;port;alterId;flag;transport;key=value|key=value|...`: fields by position, two of
them in either order, the last one options by key, of which one may have the sign between
key and value in its value.  What was written is read (`v2ray_server_string_decodes`).

`{:?}` of a text and the JSON text of `{ "type": t }` are parameters. -/

namespace XrayRs.Saas

open Text

/-! ## Numbers -/

/-- `IntErrorKind`. -/
inductive IntErrorKind
  | empty
  | invalidDigit
  | posOverflow
  | negOverflow
  deriving DecidableEq

/-- `Display` of `ParseIntError`. -/
def IntErrorKind.description : IntErrorKind → String
  | .empty => "cannot parse integer from empty string"
  | .invalidDigit => "invalid digit found in string"
  | .posOverflow => "number too large to fit in target type"
  | .negOverflow => "number too small to fit in target type"

/-- The digit loop of `from_str_radix`, with its errors; `limit` bounds the magnitude. -/
def parseMagnitude (limit : Nat) (overflow : IntErrorKind) :
    Nat → List Char → Except IntErrorKind Nat
  | acc, [] => .ok acc
  | acc, c :: s =>
    match decimalDigit c with
    | none => .error .invalidDigit
    | some d =>
      if 10 * acc + d ≤ limit then parseMagnitude limit overflow (10 * acc + d) s
      else .error overflow

/-- `str::parse` for a signed type with greatest value `limit`, with its errors. -/
def parseInt (limit : Nat) (s : List Char) : Except IntErrorKind Int :=
  if s = [] then .error .empty
  else if s = ['+'] ∨ s = ['-'] then .error .invalidDigit
  else if s.head? = some '+' then (parseMagnitude limit .posOverflow 0 s.tail).map Int.ofNat
  else if s.head? = some '-' then
    (parseMagnitude (limit + 1) .negOverflow 0 s.tail).map fun n => -(n : Int)
  else (parseMagnitude limit .posOverflow 0 s).map Int.ofNat

/-! ## The parser -/

/-- `ApiError::ParseNode`. -/
structure ParseNode where
  message : String
  deriving DecidableEq

/-- `ParseParams`, as far as this parser reads it. -/
structure ParseParams where
  nodeType : NodeType
  nodeId : Int32
  enableVless : Bool
  vlessFlow : String
  speedLimit : Float

/-- `NodeInfoResponse`, as far as this parser reads it. -/
structure NodeInfoResponse where
  nodeSpeedlimit : Float
  server : String

/-- `speed_limit_bytes`. -/
def speedLimitBytes (overrideMbps panelMbps : Float) : UInt64 :=
  let mbps := if overrideMbps > 0.0 then overrideMbps else panelMbps
  ((mbps * 1000000.0) / 8.0).toUInt64

section
variable (debug : String → String)

/-- A number of a node string; the error names the field. -/
def parseNumber {α : Type} (field : String) (limit : Nat) (cast : Int → α) (s : List Char) :
    Except ParseNode α :=
  match parseInt limit s with
  | .ok n => .ok (cast n)
  | .error e => .error ⟨s!"invalid {field} {debug (.ofList s)}: {e.description}"⟩

/-- `parse_port_i32`. -/
def parsePortI32 : List Char → Except ParseNode UInt32 :=
  parseNumber debug "port" (2 ^ 31 - 1) UInt32.ofInt

/-- `parse_alter_id`. -/
def parseAlterId : List Char → Except ParseNode UInt16 :=
  parseNumber debug "alterId" (2 ^ 15 - 1) UInt16.ofInt

/-- The two flags, in any order: `enable_tls` and `transport_protocol`. -/
structure Flags where
  enableTls : Bool
  transportProtocol : List Char
  deriving DecidableEq

/-- One turn of the loop over the flags. -/
def Flags.read (f : Flags) (value : List Char) : Flags :=
  if value = "tls".toList then { f with enableTls := true }
  else if value = [] then f
  else { f with transportProtocol := value }

/-- The options that are read. -/
structure Options where
  path : List Char
  host : List Char
  serviceName : List Char
  headerType : List Char
  deriving DecidableEq

/-- One turn of the loop over the options.  A path is joined again, in case it contains
`=` itself. -/
def Options.read (o : Options) (item : List Char) : Options :=
  match item.splitOn '=' with
  | [] => o
  | key :: values =>
    if key = [] then o
    else
      let value := values.headD []
      if key = "path".toList then { o with path := ['='].intercalate values }
      else if key = "host".toList then { o with host := value }
      else if key = "servicename".toList then { o with serviceName := value }
      else if key = "headerType".toList then { o with headerType := value }
      else o

variable (typeObject : String → String)

/-- `parse_v2ray_node_response`. -/
def parseV2rayNodeResponse (p : ParseParams) (resp : NodeInfoResponse) :
    Except ParseNode NodeInfo :=
  if resp.server = "" then .error ⟨"no server info in response"⟩
  else
    match resp.server.toList.splitOn ';' with
    | _ :: port :: alterId :: flag :: flag' :: options :: _ => do
      let port ← parsePortI32 debug port
      let alterId ← parseAlterId debug alterId
      let flags := [flag, flag'].foldl Flags.read ⟨false, []⟩
      let options := (options.splitOn '|').foldl Options.read ⟨[], [], [], []⟩
      return {
        nodeType := p.nodeType
        nodeId := p.nodeId
        port
        speedLimit := speedLimitBytes p.speedLimit resp.nodeSpeedlimit
        alterId
        transportProtocol := .ofList flags.transportProtocol
        host := .ofList options.host
        path := .ofList options.path
        enableTls := flags.enableTls
        enableVless := p.enableVless
        vlessFlow := p.vlessFlow
        cypherMethod := ""
        serverKey := ""
        serviceName := .ofList options.serviceName
        authority := ""
        header :=
          if options.headerType = [] then none else some (typeObject (.ofList options.headerType))
        acceptProxyProtocol := false
        enableReality := false }
    | _ => .error ⟨s!"malformed v2ray server string: {debug resp.server}"⟩

end

/-! ## What the panel writes -/

/-- A V2Ray server string: what it says, the order of its flags and of its options, and
that its parts keep to the separators. -/
structure ServerString where
  addr : String
  port : Nat
  alterId : Nat
  enableTls : Bool
  transportProtocol : String
  transportFirst : Bool
  options : List (String × String)
  addr_sep : ';' ∉ addr.toList
  port_lt : port < 2 ^ 31
  alterId_lt : alterId < 2 ^ 15
  transport_ne : transportProtocol ≠ "" ∧ transportProtocol ≠ "tls"
  transport_sep : ';' ∉ transportProtocol.toList
  keys_nodup : (options.map Prod.fst).Nodup
  key_sep : ∀ kv ∈ options, ';' ∉ kv.1.toList ∧ '|' ∉ kv.1.toList ∧ '=' ∉ kv.1.toList
  value_sep : ∀ kv ∈ options, ';' ∉ kv.2.toList ∧ '|' ∉ kv.2.toList
  value_sign : ∀ kv ∈ options, kv.1 ∈ ["host", "servicename", "headerType"] → '=' ∉ kv.2.toList

namespace ServerString

/-- The flags in their order. -/
def flags (n : ServerString) : String × String :=
  let tls := if n.enableTls then "tls" else ""
  if n.transportFirst then (n.transportProtocol, tls) else (tls, n.transportProtocol)

/-- An option as it is written. -/
def item (kv : String × String) : String := s!"{kv.1}={kv.2}"

/-- The options as they are written. -/
def optionText (n : ServerString) : String := "|".intercalate (n.options.map item)

/-- The text. -/
def text (n : ServerString) : String :=
  s!"{n.addr};{n.port};{n.alterId};{n.flags.1};{n.flags.2};{n.optionText}"

/-- The value of an option; an absent one counts as empty. -/
def option (n : ServerString) (key : String) : String := (n.options.lookup key).getD ""

end ServerString

/-! ## Numbers are read back -/

theorem le_of_parseDigits {acc n : Nat} {s : List Char} (h : parseDigits acc s = some n) :
    acc ≤ n := by
  induction s generalizing acc with
  | nil => exact Nat.le_of_eq (Option.some.inj h)
  | cons c s ih =>
    obtain ⟨d, -, hrest⟩ := Option.bind_eq_some_iff.mp h
    have hle := ih hrest
    omega

/-- Digits are read without an error, if the number is in range. -/
theorem parseMagnitude_eq_ok {limit : Nat} {overflow : IntErrorKind} {acc n : Nat} {s : List Char}
    (h : parseDigits acc s = some n) (hn : n ≤ limit) :
    parseMagnitude limit overflow acc s = .ok n := by
  induction s generalizing acc with
  | nil => exact congrArg Except.ok (Option.some.inj h)
  | cons c s ih =>
    obtain ⟨d, hd, hrest⟩ := Option.bind_eq_some_iff.mp h
    have hle := le_of_parseDigits hrest
    rw [parseMagnitude, hd]
    dsimp only
    rw [if_pos (by omega)]
    exact ih hrest

/-- **A number is read back from its text.** -/
theorem parseInt_toDigits {limit n : Nat} (hn : n ≤ limit) :
    parseInt limit (Nat.toDigits 10 n) = .ok (n : Int) := by
  have hsign : ∀ {c : Char}, c.isDigit = false → (Nat.toDigits 10 n).head? ≠ some c :=
    fun hc h => notMem_toDigits hc n (List.mem_of_head? h)
  have hplus := hsign (c := '+') (by decide)
  have hminus := hsign (c := '-') (by decide)
  have hsingle : ¬ (Nat.toDigits 10 n = ['+'] ∨ Nat.toDigits 10 n = ['-']) := by
    rintro (h | h)
    · exact hplus (by rw [h]; rfl)
    · exact hminus (by rw [h]; rfl)
  unfold parseInt
  rw [if_neg Nat.toDigits_ne_nil, if_neg hsingle, if_neg hplus, if_neg hminus,
    parseMagnitude_eq_ok (parseDigits_toDigits n) hn]
  rfl

theorem parseNumber_toDigits {α : Type} {debug : String → String} {field : String} {limit n : Nat}
    {cast : Int → α} (hn : n ≤ limit) :
    parseNumber debug field limit cast (Nat.toDigits 10 n) = .ok (cast n) := by
  rw [parseNumber, parseInt_toDigits hn]

/-! ## Options are read back -/

/-- **One option.**  Only a path may have the sign in its value. -/
theorem Options.read_item {key value : List Char} (hkey : '=' ∉ key)
    (hvalue : key ∈ ["host".toList, "servicename".toList, "headerType".toList] → '=' ∉ value)
    (o : Options) : o.read (key ++ '=' :: value) =
      { path := if key = "path".toList then value else o.path
        host := if key = "host".toList then value else o.host
        serviceName := if key = "servicename".toList then value else o.serviceName
        headerType := if key = "headerType".toList then value else o.headerType } := by
  have hhead : '=' ∉ value → (value.splitOn '=').headD [] = value := by
    intro h
    rw [List.splitOn_eq_singleton h]
    rfl
  unfold Options.read
  rw [List.splitOn_append_cons_self_of_not_mem hkey]
  dsimp only
  rw [List.intercalate_splitOn]
  by_cases hnil : key = []
  · subst hnil
    rw [if_pos rfl, if_neg (by decide), if_neg (by decide), if_neg (by decide), if_neg (by decide)]
  rw [if_neg hnil]
  by_cases hpath : key = "path".toList
  · subst hpath
    rw [if_pos rfl, if_pos rfl, if_neg (by decide), if_neg (by decide), if_neg (by decide)]
  rw [if_neg hpath, if_neg hpath]
  by_cases hhost : key = "host".toList
  · subst hhost
    rw [if_pos rfl, if_pos rfl, if_neg (by decide), if_neg (by decide), hhead (hvalue (by decide))]
  rw [if_neg hhost, if_neg hhost]
  by_cases hservice : key = "servicename".toList
  · subst hservice
    rw [if_pos rfl, if_pos rfl, if_neg (by decide), hhead (hvalue (by decide))]
  rw [if_neg hservice, if_neg hservice]
  by_cases hheader : key = "headerType".toList
  · subst hheader
    rw [if_pos rfl, if_pos rfl, hhead (hvalue (by decide))]
  · rw [if_neg hheader, if_neg hheader]

namespace ServerString

theorem toList_item (kv : String × String) :
    (item kv).toList = kv.1.toList ++ '=' :: kv.2.toList := by
  simp [item, toString]

variable (n : ServerString)

/-- The loop over the options that the text is cut into is one over the options. -/
theorem foldl_options : (n.optionText.toList.splitOn '|').foldl Options.read ⟨[], [], [], []⟩ =
    n.options.foldl (fun o kv => o.read (item kv).toList) ⟨[], [], [], []⟩ := by
  have hbar : ("|" : String).toList = ['|'] := rfl
  by_cases hnil : n.options = []
  · -- one item without a key, which is passed over
    rw [optionText, hnil]
    decide
  · rw [optionText, String.toList_intercalate, hbar, List.splitOn_intercalate]
    · rw [List.map_map, List.foldl_map]
      rfl
    · intro l hl
      obtain ⟨s, hs, rfl⟩ := List.mem_map.mp hl
      obtain ⟨kv, hkv, rfl⟩ := List.mem_map.mp hs
      rw [toList_item, List.mem_append, List.mem_cons]
      have hkey := (n.key_sep kv hkv).2.1
      have hvalue := (n.value_sep kv hkv).2
      simp [hkey, hvalue]
    · simpa using hnil

variable {n} in
/-- One turn of the loop over the options. -/
theorem read_option {kv : String × String} (hkv : kv ∈ n.options) (o : Options) :
    o.read (item kv).toList =
      { path := if kv.1.toList = "path".toList then kv.2.toList else o.path
        host := if kv.1.toList = "host".toList then kv.2.toList else o.host
        serviceName := if kv.1.toList = "servicename".toList then kv.2.toList else o.serviceName
        headerType := if kv.1.toList = "headerType".toList then kv.2.toList else o.headerType } := by
  rw [toList_item]
  refine Options.read_item (n.key_sep kv hkv).2.2 (fun hkey => n.value_sign kv hkv ?_) o
  simpa only [List.mem_cons, String.toList_inj, List.not_mem_nil] using hkey

/-- What the loop leaves in a place that one key writes to. -/
theorem place_foldl (place : Options → List Char) (key : String)
    (hinit : place ⟨[], [], [], []⟩ = [])
    (hstep : ∀ kv ∈ n.options, ∀ o : Options, place (o.read (item kv).toList) =
      if kv.1.toList = key.toList then kv.2.toList else place o) :
    place (n.options.foldl (fun o kv => o.read (item kv).toList) ⟨[], [], [], []⟩) =
      (n.option key).toList := by
  have hfold := AssocList.foldl_eq_lookup
    (fun (o : Options) (kv : String × String) => o.read (item kv).toList)
    (fun o => String.ofList (place o)) key
    (fun kv hkv o => by
      rw [hstep kv hkv]
      by_cases hkey : kv.1 = key
      · simp [hkey]
      · simp [hkey, String.toList_inj])
    n.keys_nodup ⟨[], [], [], []⟩
  rw [hinit, String.ofList_nil] at hfold
  have hchars := congrArg String.toList hfold
  rwa [String.toList_ofList] at hchars

/-- **The options are read**, in any order. -/
theorem read_options : (n.optionText.toList.splitOn '|').foldl Options.read ⟨[], [], [], []⟩ =
    ⟨(n.option "path").toList, (n.option "host").toList, (n.option "servicename").toList,
      (n.option "headerType").toList⟩ := by
  have hpath := n.place_foldl Options.path "path" rfl fun kv hkv o => by rw [read_option hkv]
  have hhost := n.place_foldl Options.host "host" rfl fun kv hkv o => by rw [read_option hkv]
  have hservice := n.place_foldl Options.serviceName "servicename" rfl fun kv hkv o => by
    rw [read_option hkv]
  have hheader := n.place_foldl Options.headerType "headerType" rfl fun kv hkv o => by
    rw [read_option hkv]
  rw [foldl_options, ← hpath, ← hhost, ← hservice, ← hheader]

/-- The fields of the text. -/
theorem splitOn_text : n.text.toList.splitOn ';' =
    [n.addr.toList, Nat.toDigits 10 n.port, Nat.toDigits 10 n.alterId, n.flags.1.toList,
      n.flags.2.toList, n.optionText.toList] := by
  have hnat : ∀ k : Nat, (toString k).toList = Nat.toDigits 10 k :=
    fun _ => Nat.toList_repr
  have hflags : ';' ∉ n.flags.1.toList ∧ ';' ∉ n.flags.2.toList := by
    have htls : ';' ∉ (if n.enableTls then "tls" else "").toList := by
      cases n.enableTls <;> decide
    unfold flags
    dsimp only
    split
    · exact ⟨n.transport_sep, htls⟩
    · exact ⟨htls, n.transport_sep⟩
  have hoptions : ';' ∉ n.optionText.toList := by
    rw [optionText, String.toList_intercalate]
    refine Delimited.notMem_intercalate (by decide) fun l hl => ?_
    obtain ⟨s, hs, rfl⟩ := List.mem_map.mp hl
    obtain ⟨kv, hkv, rfl⟩ := List.mem_map.mp hs
    rw [toList_item, List.mem_append, List.mem_cons]
    simp [(n.key_sep kv hkv).1, (n.value_sep kv hkv).1]
  have htext : n.text.toList = n.addr.toList ++ ';' :: ((toString n.port).toList ++
      ';' :: ((toString n.alterId).toList ++ ';' :: (n.flags.1.toList ++
        ';' :: (n.flags.2.toList ++ ';' :: n.optionText.toList)))) := by
    simp [text, toString]
  rw [htext, hnat, hnat, List.splitOn_append_cons_self_of_not_mem n.addr_sep,
    List.splitOn_append_cons_self_of_not_mem (notMem_toDigits (by decide) _),
    List.splitOn_append_cons_self_of_not_mem (notMem_toDigits (by decide) _),
    List.splitOn_append_cons_self_of_not_mem hflags.1,
    List.splitOn_append_cons_self_of_not_mem hflags.2, List.splitOn_eq_singleton hoptions]

/-- The flags are read, in either order. -/
theorem read_flags : [n.flags.1.toList, n.flags.2.toList].foldl Flags.read ⟨false, []⟩ =
    ⟨n.enableTls, n.transportProtocol.toList⟩ := by
  have htls : n.transportProtocol.toList ≠ "tls".toList := by
    rw [ne_eq, String.toList_inj]
    exact n.transport_ne.2
  have hempty : n.transportProtocol.toList ≠ [] := by
    rw [ne_eq, String.toList_eq_nil_iff]
    exact n.transport_ne.1
  have htransport : ∀ f : Flags, f.read n.transportProtocol.toList =
      { f with transportProtocol := n.transportProtocol.toList } := by
    intro f
    rw [Flags.read, if_neg htls, if_neg hempty]
  have hflag : ∀ f : Flags, f.enableTls = false →
      f.read (if n.enableTls then "tls" else "").toList = { f with enableTls := n.enableTls } := by
    intro f hf
    cases n.enableTls with
    | false =>
      obtain ⟨enableTls, transportProtocol⟩ := f
      obtain rfl : enableTls = false := hf
      rfl
    | true => rfl
  unfold flags
  dsimp only
  by_cases hfirst : n.transportFirst = true
  · rw [if_pos hfirst, List.foldl_cons, List.foldl_cons, List.foldl_nil, htransport, hflag _ rfl]
  · rw [if_neg hfirst, List.foldl_cons, List.foldl_cons, List.foldl_nil, hflag _ rfl, htransport]

end ServerString

section
variable (debug typeObject : String → String) (p : ParseParams) (speedLimit : Float)

/-- **What a server string is read as.** -/
theorem parseV2rayNodeResponse_text (n : ServerString) :
    parseV2rayNodeResponse debug typeObject p ⟨speedLimit, n.text⟩ = .ok {
      nodeType := p.nodeType
      nodeId := p.nodeId
      port := .ofNat n.port
      speedLimit := speedLimitBytes p.speedLimit speedLimit
      alterId := .ofNat n.alterId
      transportProtocol := n.transportProtocol
      host := n.option "host"
      path := n.option "path"
      enableTls := n.enableTls
      enableVless := p.enableVless
      vlessFlow := p.vlessFlow
      cypherMethod := ""
      serverKey := ""
      serviceName := n.option "servicename"
      authority := ""
      header := if n.option "headerType" = "" then none else some (typeObject (n.option "headerType"))
      acceptProxyProtocol := false
      enableReality := false } := by
  have hne : n.text ≠ "" := by
    intro hnil
    have hsplit := n.splitOn_text
    rw [hnil] at hsplit
    exact absurd (congrArg List.length hsplit) (by simp)
  have hport : parsePortI32 debug (Nat.toDigits 10 n.port) = .ok (.ofNat n.port) := by
    have hlt := n.port_lt
    have hcast : ((n.port : Int) % 2 ^ 32).toNat = n.port := by omega
    rw [parsePortI32, parseNumber_toDigits (by omega), UInt32.ofInt, hcast]
  have halterId : parseAlterId debug (Nat.toDigits 10 n.alterId) = .ok (.ofNat n.alterId) := by
    have hlt := n.alterId_lt
    have hcast : ((n.alterId : Int) % 2 ^ 16).toNat = n.alterId := by omega
    rw [parseAlterId, parseNumber_toDigits (by omega), UInt16.ofInt, hcast]
  rw [parseV2rayNodeResponse, if_neg hne, n.splitOn_text]
  dsimp only
  rw [hport, halterId, n.read_flags, n.read_options]
  simp only [String.ofList_toList, String.toList_eq_nil_iff]
  rfl

/-- **The panel's V2Ray server string decodes to what was encoded**: the parser succeeds
and gives the port, the alterId, the TLS flag, the transport and the options of the text,
whatever the order of the flags and of the options. -/
theorem v2ray_server_string_decodes (n : ServerString) :
    (∃ node, parseV2rayNodeResponse debug typeObject p ⟨speedLimit, n.text⟩ = .ok node ∧
      node.port.toNat = n.port ∧ node.alterId.toNat = n.alterId ∧
      node.enableTls = n.enableTls ∧ node.transportProtocol = n.transportProtocol ∧
      node.path = n.option "path" ∧ node.host = n.option "host" ∧
      node.serviceName = n.option "servicename" ∧
      node.header =
        if n.option "headerType" = "" then none else some (typeObject (n.option "headerType"))) ∧
    ∀ n' : ServerString, n'.port = n.port → n'.alterId = n.alterId → n'.enableTls = n.enableTls →
      n'.transportProtocol = n.transportProtocol → n'.options.Perm n.options →
        parseV2rayNodeResponse debug typeObject p ⟨speedLimit, n'.text⟩ =
          parseV2rayNodeResponse debug typeObject p ⟨speedLimit, n.text⟩ := by
  refine ⟨⟨_, parseV2rayNodeResponse_text debug typeObject p speedLimit n, ?_, ?_, rfl, rfl, rfl,
    rfl, rfl, rfl⟩, ?_⟩
  · exact UInt32.toNat_ofNat_of_lt' (n.port_lt.trans (by decide))
  · exact UInt16.toNat_ofNat_of_lt' (n.alterId_lt.trans (by decide))
  · intro n' hport halterId htls htransport hperm
    have hoption : ∀ key, n'.option key = n.option key := by
      intro key
      rw [ServerString.option, AssocList.lookup_perm hperm n'.keys_nodup key]
      rfl
    rw [parseV2rayNodeResponse_text, parseV2rayNodeResponse_text, hport, halterId, htls, htransport]
    simp only [hoption]

end

example : (parseV2rayNodeResponse id id ⟨.v2ray, 1, false, "", 0⟩
    ⟨0, "1.1.1.1;443;2;tls;ws;path=/a=b|host=h.com"⟩).map
      (fun n => (n.port, n.alterId, n.enableTls, n.transportProtocol, n.path, n.host)) =
    .ok (443, 2, true, "ws", "/a=b", "h.com") := by decide +kernel

end XrayRs.Saas
