import XrayRs.StreamInbounds

/-! # Who the stream inbounds serve

A Trojan or VLESS inbound, and a SOCKS or HTTP inbound that has accounts, serves no stranger.
Whatever bytes come, and however they are cut: where `decode` goes on with a flow, of any
kind, the stream shows the credentials of a user that the inbound knows
(`served_was_admitted`).  A SOCKS or HTTP inbound without accounts and a dokodemo-door serve
anyone.

The session is the user's, but for SOCKS: `Socks::decode` checks the account and leaves the
session as it was. -/

namespace XrayRs

open ByteWords ByteParser Dialogue LineBreaks Text

/-- The session that a decoding goes on with, unless it was refused. -/
def Decoding.session : Decoding → Option Ctx
  | .relays h => some h.ctx
  | .serves .refused _ _ _ _ => none
  | .serves (.datagrams _) _ ctx _ _ | .serves .carrier _ ctx _ _ | .serves .associate _ ctx _ _ =>
    some ctx

/-- What a stream shows that the inbound serves, and whose the second session is.  For Trojan,
VLESS and HTTP with accounts, the credentials of a user, who has the session; for SOCKS those
of an account where there are any (`Socks.Admits`), and the session is as it was; else
nothing, and the session is as it was. -/
inductive StreamInbound.Shows (base64Decode : List Char → Option Bytes) (ctx : Ctx) :
    StreamInbound → Bytes → Ctx → Prop
  | trojan {users : Trojan.TrojanUsers} {key rest : Bytes} {user : Trojan.TrojanUser}
      (huser : users.get key = some user) :
      Shows base64Decode ctx (.trojan users) (key ++ rest) (ctx.ofUser user.email)
  | vless {users : Vless.VlessUsers} {id rest : Bytes} {user : Vless.VlessUser}
      (huser : users.get id = some user) :
      Shows base64Decode ctx (.vless users) (0 :: id ++ rest) (ctx.ofUser user.email)
  | socks {s : Socks} {methods credentials verdict rest : Bytes} (hlen : methods.length ≤ 255)
      (hadmits : s.Admits credentials verdict) :
      Shows base64Decode ctx (.socks s)
        ([VERSION5, UInt8.ofNat methods.length] ++ methods ++ credentials ++ rest) ctx
  | http {accounts : List Http.HttpAccount} {a : Http.HttpAccount} {stream : Bytes} {idx : Nat}
      {request : Http.Request} {value : List Char} (ha : a ∈ accounts)
      (hhead : Http.findCrlfCrlf stream = some idx)
      (hrequest : Http.parseRequest (stream.take (idx + 4)) = .ok request)
      (hvalue : Http.headerValue request.headers "proxy-authorization" = some value)
      (hbasic : Http.eqIgnoreCase (value.take 6) "Basic " = true)
      (hdecoded : base64Decode (trim (value.drop 6)) =
        some (asBytes (a.username ++ ":" ++ a.password))) :
      Shows base64Decode ctx (.http accounts) stream (ctx.ofUser a.username)
  | httpOpen {stream : Bytes} : Shows base64Decode ctx (.http []) stream ctx
  | dokodemo {address : Address} {port : UInt16} {stream : Bytes} :
      Shows base64Decode ctx (.dokodemo address port) stream ctx

section

variable {base64Decode : List Char → Option Bytes} {bindUdp : Except IoError UInt16}
  {ctx ctx' : Ctx} {d : Decoding} {reads : List Bytes} {stream : Bytes}

/-! ## The parsed headers -/

/-- What `read_header` gives comes from the front of the stream. -/
theorem run_of_readHeader {α : Type} {max : Nat} {parse : Parser α} (hp : Incremental parse)
    (hcut : IsCut stream reads) {t : α} {leftover : Bytes} {unread : List Bytes}
    (h : readHeader max parse reads = .ok ((t, leftover), unread)) :
    parse.run stream = .ok (t, leftover ++ unread.flatten) := by
  obtain ⟨buf, hbuf, hstream⟩ := run_of_readHeaderInner hp h
  rw [List.nil_append, hcut.1] at hstream
  rw [← hstream]
  exact hp.ok_append hbuf _

theorem Trojan.user_of_parse {users : TrojanUsers} {dest : Destination} {email : String}
    {rest : Bytes} (h : (parse users).run stream = .ok ((dest, email), rest)) :
    ∃ key more user, stream = key ++ more ∧ users.get key = some user ∧ email = user.email := by
  obtain ⟨key, more, htake, h⟩ := run_bind_eq_ok.mp h
  cases huser : users.get key with
  | none =>
    rw [huser] at h
    cases h
  | some user =>
    rw [huser] at h
    obtain ⟨_, _, -, h⟩ := run_bind_eq_ok.mp h
    obtain ⟨_, _, -, h⟩ := run_bind_eq_ok.mp h
    obtain ⟨_, _, -, h⟩ := run_bind_eq_ok.mp h
    obtain ⟨_, _, -, h⟩ := run_bind_eq_ok.mp h
    cases h
    exact ⟨key, more, user, (take_eq_ok htake).1, huser, rfl⟩

theorem Vless.email_of_parseCommand {cmd : UInt8} {email email' : String} {req : VlessReq}
    {buf rest : Bytes} (h : (parseCommand cmd email).run buf = .ok ((req, email'), rest)) :
    email' = email := by
  unfold parseCommand at h
  split at h
  · obtain ⟨_, _, -, h⟩ := run_bind_eq_ok.mp h
    cases h
    rfl
  split at h
  · obtain ⟨_, _, -, h⟩ := run_bind_eq_ok.mp h
    cases h
    rfl
  split at h
  · cases h
    rfl
  · cases h

theorem Vless.user_of_parse {users : VlessUsers} {req : VlessReq} {email : String} {rest : Bytes}
    (h : (parse users).run stream = .ok ((req, email), rest)) :
    ∃ id more user, stream = 0 :: id ++ more ∧ users.get id = some user ∧ email = user.email := by
  obtain ⟨ver, afterVer, hver, h⟩ := run_bind_eq_ok.mp h
  split at h
  · cases h
  next hzero =>
  obtain ⟨id, more, htake, h⟩ := run_bind_eq_ok.mp h
  cases huser : users.get id with
  | none =>
    simp only [huser] at h
    cases h
  | some user =>
    simp only [huser] at h
    obtain ⟨_, _, -, h⟩ := run_bind_eq_ok.mp h
    obtain ⟨_, _, -, h⟩ := run_bind_eq_ok.mp h
    obtain ⟨_, _, -, h⟩ := run_bind_eq_ok.mp h
    refine ⟨id, more, user, ?_, huser, email_of_parseCommand h⟩
    rw [takeU8_eq_ok hver, (take_eq_ok htake).1, not_not.mp hzero]
    rfl

theorem StreamInbound.shows_of_trojanDecode {users : Trojan.TrojanUsers}
    (hcut : IsCut stream reads) (h : trojanDecode users ctx reads = .ok d)
    (hserved : d.session = some ctx') : Shows base64Decode ctx (.trojan users) stream ctx' := by
  unfold trojanDecode at h
  cases hread : readHeader maxHeader (Trojan.parse users) reads with
  | error e =>
    rw [hread] at h
    cases h
  | ok r =>
    obtain ⟨⟨⟨dest, email⟩, leftover⟩, unread⟩ := r
    rw [hread] at h
    obtain ⟨key, more, user, rfl, huser, rfl⟩ :=
      Trojan.user_of_parse (run_of_readHeader (Trojan.incremental_parse users) hcut hread)
    have hctx : ctx' = ctx.ofUser user.email := by
      simp only [bind, Except.bind, pure, Except.pure] at h
      split at h <;> cases h <;> exact (Option.some.inj hserved).symm
    exact hctx ▸ .trojan huser

theorem StreamInbound.shows_of_vlessDecode {users : Vless.VlessUsers}
    (hcut : IsCut stream reads) (h : vlessDecode users ctx reads = .ok d)
    (hserved : d.session = some ctx') : Shows base64Decode ctx (.vless users) stream ctx' := by
  unfold vlessDecode at h
  cases hread : readHeader maxHeader (Vless.parse users) reads with
  | error e =>
    rw [hread] at h
    cases h
  | ok r =>
    obtain ⟨⟨⟨req, email⟩, leftover⟩, unread⟩ := r
    rw [hread] at h
    obtain ⟨id, more, user, rfl, huser, rfl⟩ :=
      Vless.user_of_parse (run_of_readHeader (Vless.incremental_parse users) hcut hread)
    have hctx : ctx' = ctx.ofUser user.email := by
      cases req <;> cases h <;> exact (Option.some.inj hserved).symm
    exact hctx ▸ .vless huser

/-! ## SOCKS accounts -/

/-- A field behind its length byte. -/
theorem ofNat_of_length {bs : Bytes} {n : UInt8} (h : bs.length = n.toNat) :
    bs.length ≤ 255 ∧ n = UInt8.ofNat bs.length := by
  rw [h, UInt8.ofNat_toNat]
  exact ⟨Nat.le_of_lt_succ n.toNat_lt, rfl⟩

theorem Socks.account_of_authenticate {s : Socks} {rest : Bytes}
    (h : s.authenticate.runOnBytes stream = (.ok (), rest)) :
    ∃ credentials, s.Admits credentials [AUTH_VERSION, 0x00] ∧ stream = credentials ++ rest := by
  obtain ⟨uver, afterVer, rfl, hfields⟩ := runOnBytes_readU8.mp h
  split at hfields
  · cases hfields
  next hver =>
  obtain ⟨ulen, afterUlen, rfl, hfields⟩ := runOnBytes_readU8.mp hfields
  obtain ⟨uname, afterUname, rfl, hulen, hfields⟩ := runOnBytes_readExact_bind.mp hfields
  obtain ⟨plen, afterPlen, rfl, hfields⟩ := runOnBytes_readU8.mp hfields
  obtain ⟨passwd, afterPasswd, rfl, hplen, hcheck⟩ := runOnBytes_readExact_bind.mp hfields
  obtain ⟨huser, rfl⟩ := ofNat_of_length hulen
  obtain ⟨hpass, rfl⟩ := ofNat_of_length hplen
  unfold Socks.checkAccount at hcheck
  cases haccount : s.accountFor uname passwd with
  | none =>
    rw [haccount, if_pos Option.isNone_none, Io.writeAll, runOnBytes_writeAll] at hcheck
    cases hcheck
  | some a =>
    rw [haccount, if_neg (by simp)] at hcheck
    obtain rfl : afterPasswd = rest := by
      cases hcheck
      rfl
    have hmatch := List.find?_some haccount
    rw [Bool.and_eq_true, beq_iff_eq, beq_iff_eq] at hmatch
    obtain ⟨rfl, rfl⟩ := hmatch
    refine ⟨_, .account (List.mem_of_find?_eq_some haccount) huser hpass, ?_⟩
    rw [not_not.mp hver]
    simp

theorem Socks.admits_of_handshake {s : Socks} {request : UInt8 × Address × UInt16} {rest : Bytes}
    (h : s.handshake.runOnBytes stream = (.ok request, rest)) :
    ∃ methods credentials verdict more, methods.length ≤ 255 ∧ s.Admits credentials verdict ∧
      stream = [VERSION5, UInt8.ofNat methods.length] ++ methods ++ credentials ++ more := by
  obtain ⟨ver, afterVer, rfl, hgreeting⟩ := runOnBytes_readU8.mp h
  split at hgreeting
  · cases hgreeting
  next hver =>
  obtain ⟨nmethods, afterLen, rfl, hgreeting⟩ := runOnBytes_readU8.mp hgreeting
  obtain ⟨methods, more, rfl, hlen, hnegotiate⟩ := runOnBytes_readExact_bind.mp hgreeting
  obtain ⟨hle, rfl⟩ := ofNat_of_length hlen
  obtain rfl := not_not.mp hver
  unfold Socks.negotiate at hnegotiate
  split at hnegotiate
  · rw [Io.writeAll, runOnBytes_writeAll] at hnegotiate
    cases hnegotiate
  · rw [Io.writeAll, runOnBytes_writeAll] at hnegotiate
    by_cases haccounts : s.accounts = []
    · exact ⟨methods, [], [], more, hle, .open haccounts, by simp⟩
    · rw [expected_eq, if_neg haccounts, if_pos rfl, runOnBytes_bind] at hnegotiate
      cases hauth : s.authenticate.runOnBytes more with
      | mk result left =>
        cases result with
        | error e =>
          rw [hauth] at hnegotiate
          cases hnegotiate
        | ok u =>
          obtain ⟨credentials, hadmits, rfl⟩ := Socks.account_of_authenticate hauth
          exact ⟨methods, credentials, _, left, hle, hadmits, by simp⟩

theorem StreamInbound.shows_of_socksDecode {s : Socks} (hcut : IsCut stream reads)
    (h : socksDecode bindUdp s ctx reads = .ok d) (hserved : d.session = some ctx') :
    Shows base64Decode ctx (.socks s) stream ctx' := by
  have hpieces : Cut reads := fun r hr => (hcut.2 r hr).1
  unfold socksDecode at h
  cases hrun : (s.decode bindUdp).runOn reads with
  | mk result unread =>
    cases result with
    | error e =>
      rw [hrun] at h
      cases h
    | ok request =>
      obtain ⟨cmd, address, port⟩ := request
      rw [hrun] at h
      obtain ⟨hbytes, -⟩ := runOnBytes_of_runOn hpieces hrun
      rw [hcut.1, Socks.decode, runOnBytes_bind] at hbytes
      cases hshake : s.handshake.runOnBytes stream with
      | mk result' left =>
        cases result' with
        | error e =>
          rw [hshake] at hbytes
          cases hbytes
        | ok request' =>
          obtain ⟨methods, credentials, verdict, more, hle, hadmits, rfl⟩ :=
            Socks.admits_of_handshake hshake
          have hctx : ctx' = ctx := by
            dsimp only at h
            split at h <;> cases h <;> exact (Option.some.inj hserved).symm
          exact hctx ▸ .socks hle hadmits

/-! ## HTTP accounts -/

theorem Http.account_of_checkAuth {accounts : List HttpAccount} {headers : List (List Char)}
    {user : String} (h : checkAuth base64Decode accounts headers = some user) :
    ∃ a ∈ accounts, ∃ value, user = a.username ∧
      headerValue headers "proxy-authorization" = some value ∧
      eqIgnoreCase (value.take 6) "Basic " = true ∧
      base64Decode (trim (value.drop 6)) = some (asBytes (a.username ++ ":" ++ a.password)) := by
  obtain ⟨value, hvalue, h⟩ := Option.bind_eq_some_iff.mp h
  split at h
  · next hbasic =>
    obtain ⟨decoded, hdecoded, h⟩ := Option.bind_eq_some_iff.mp h
    obtain ⟨creds, hcreds, h⟩ := Option.bind_eq_some_iff.mp h
    obtain ⟨⟨name, pass⟩, hsplit, h⟩ := Option.bind_eq_some_iff.mp h
    obtain ⟨a, hfind, hname⟩ := Option.bind_eq_some_iff.mp h
    have hmatch := List.find?_some hfind
    rw [Bool.and_eq_true, beq_iff_eq, beq_iff_eq] at hmatch
    obtain ⟨rfl, rfl⟩ := hmatch
    have hchars := (splitOnce_eq_some.mp hsplit).2
    have htext : creds = a.username ++ ":" ++ a.password := by
      apply String.toList_injective
      rw [hchars]
      simp
    refine ⟨a, List.mem_of_find?_eq_some hfind, value, ?_, hvalue, hbasic, ?_⟩
    · exact (Option.some.inj hname).symm
    · rw [hdecoded, ← htext, asBytes_of_fromUtf8 hcreds]
  · cases h

/-- A request that goes on has the session that it is authenticated for. -/
theorem Http.authenticated_of_decode {accounts : List HttpAccount} {head body : Bytes}
    {unread : List Bytes} {decoded : Decoded} {leftover : Bytes}
    (hread : readHeader maxHead parseHead reads = .ok ((head, body), unread))
    (h : decode base64Decode accounts ctx reads = .ok decoded)
    (hleftover : decoded.leftover = some leftover) :
    ∃ request, parseRequest head = .ok request ∧
      authenticate base64Decode accounts ctx request.headers = some decoded.ctx := by
  simp only [decode, hread, bind, Except.bind, pure, Except.pure] at h
  cases hrequest : parseRequest head with
  | error e =>
    rw [hrequest] at h
    cases h
  | ok request =>
    refine ⟨request, rfl, ?_⟩
    simp only [hrequest] at h
    cases hauth : authenticate base64Decode accounts ctx request.headers with
    | none =>
      simp only [hauth] at h
      cases h
      cases hleftover
    | some session =>
      simp only [hauth] at h
      split at h <;> split at h
      · cases h
      · cases h
        rfl
      · cases h
      · cases h
        rfl

theorem StreamInbound.shows_of_httpDecode {accounts : List Http.HttpAccount}
    (hcut : IsCut stream reads) (h : httpDecode base64Decode accounts ctx reads = .ok d)
    (hserved : d.session = some ctx') :
    Shows base64Decode ctx (.http accounts) stream ctx' := by
  unfold httpDecode at h
  cases hread : readHeader Http.maxHead Http.parseHead reads with
  | error e =>
    rw [hread] at h
    cases h
  | ok r =>
    obtain ⟨⟨head, body⟩, unread⟩ := r
    simp only [hread, bind, Except.bind, pure, Except.pure] at h
    cases hdecode : Http.decode base64Decode accounts ctx reads with
    | error e =>
      rw [hdecode] at h
      cases h
    | ok decoded =>
      simp only [hdecode] at h
      cases hleftover : decoded.leftover with
      | none =>
        rw [hleftover] at h
        cases h
        cases hserved
      | some leftover =>
        rw [hleftover] at h
        cases h
        obtain rfl := Option.some.inj hserved
        obtain ⟨request, hrequest, hauth⟩ :=
          Http.authenticated_of_decode hread hdecode hleftover
        have hrun := run_of_readHeader Http.incremental_parseHead hcut hread
        rw [Http.run_parseHead] at hrun
        cases hfind : Http.findCrlfCrlf stream with
        | none =>
          rw [hfind] at hrun
          cases hrun
        | some idx =>
          rw [hfind] at hrun
          obtain ⟨rfl, -⟩ := Prod.mk.inj (Except.ok.inj hrun)
          cases accounts with
          | nil => exact Option.some.inj hauth ▸ .httpOpen
          | cons first more =>
            obtain ⟨user, hcheck, hctx⟩ := Option.map_eq_some_iff.mp hauth
            obtain ⟨a, ha, value, rfl, hvalue, hbasic, hdecoded⟩ :=
              Http.account_of_checkAuth hcheck
            exact hctx ▸ .http ha hfind hrequest hvalue hbasic hdecoded

end

/-- **Nobody else is served.**  For every inbound and every stream, however it is cut: where
`decode` goes on with a flow, to relay it or to serve it itself, the stream shows what
`StreamInbound.Shows` asks of this inbound.  That is the credentials of a user that it knows,
who has the session (which SOCKS leaves as it was); and nothing for a dokodemo-door, or for
SOCKS and HTTP without accounts, where the session stays as it was. -/
theorem served_was_admitted {base64Decode : List Char → Option Bytes}
    {bindUdp : Except IoError UInt16} {inbound : StreamInbound} {ctx ctx' : Ctx}
    {stream : Bytes} {reads : List Bytes} (hcut : IsCut stream reads) {d : Decoding}
    (h : inbound.decode base64Decode bindUdp ctx reads = .ok d)
    (hserved : d.session = some ctx') : inbound.Shows base64Decode ctx stream ctx' := by
  cases inbound with
  | trojan users => exact StreamInbound.shows_of_trojanDecode hcut h hserved
  | vless users => exact StreamInbound.shows_of_vlessDecode hcut h hserved
  | socks s => exact StreamInbound.shows_of_socksDecode hcut h hserved
  | http accounts => exact StreamInbound.shows_of_httpDecode hcut h hserved
  | dokodemo address port =>
    cases h
    obtain rfl := Option.some.inj hserved
    exact .dokodemo

/-- A VLESS client asks for a mux carrier, in two pieces. -/
theorem served_was_admitted_carrier :
    (StreamInbound.vless (.new [(.replicate 16 7, "user@example", 0)])).Shows (fun _ => none)
      ⟨none, none, none⟩ (0 :: List.replicate 16 7 ++ [0, 3, 9])
      (Ctx.ofUser ⟨none, none, none⟩ "user@example") :=
  @served_was_admitted _ (.ok 0) _ _ _ _ [0 :: List.replicate 16 7, [0, 3, 9]] ⟨rfl, by decide⟩
    _ rfl rfl

end XrayRs
