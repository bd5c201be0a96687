import XrayRs.AssocList
import XrayRs.HexDigits
import XrayRs.InboundAccess
import XrayRs.Shadowsocks
import XrayRs.UserTags
import XrayRs.VmessHandshake

/-! # Who the panel's inbounds serve

The panel lists the users of each node.  A controller builds the table of its inbound from
this list, and rebuilds or swaps it when the list changes; whoever is then served by the
inbound is a user on the controller's list, and is reported to the panel as this user, by
this controller only (`panel_serves_its_users`).

A controller finds the inbound it syncs by its node's tag.  After a rebuild that failed,
another controller's inbound may run under this tag, and a sync would put the wrong users
into it; the runs meant here are those where this does not happen
(`Server.TagIsOwn`).  It does not where all rebuilds succeed (`tagIsOwn_of_rebuildSucceeds`). -/

namespace XrayRs

open ByteWords HexDigits Dialogue StepSystem

/-! ## Tables of users -/

namespace Trojan

/-- `trojan_key`: `hex(SHA224(password))`. -/
def trojanKey (sha224 : Bytes → Vector UInt8 28) (password : String) : Vector UInt8 56 :=
  (sha224 (asBytes password)).flatMap fun b => #v[hexDigit (b.toNat / 16), hexDigit (b.toNat % 16)]

/-- `TrojanUsers::new`. -/
def TrojanUsers.new (sha224 : Bytes → Vector UInt8 28) (users : List (String × String × UInt32)) :
    TrojanUsers :=
  ⟨users.foldl (fun byKey (password, email, level) =>
    (trojanKey sha224 password, ⟨email, level⟩) :: byKey) []⟩

/-- What the table has for a user. -/
def tableEntry (sha224 : Bytes → Vector UInt8 28) (entry : String × String × UInt32) :
    Vector UInt8 56 × TrojanUser :=
  (trojanKey sha224 entry.1, ⟨entry.2.1, entry.2.2⟩)

theorem entry_of_get {sha224 : Bytes → Vector UInt8 28} {users : List (String × String × UInt32)}
    {key : Bytes} {user : TrojanUser} (h : (TrojanUsers.new sha224 users).get key = some user) :
    ∃ entry ∈ users, key = (trojanKey sha224 entry.1).toList ∧ user.email = entry.2.1 := by
  unfold TrojanUsers.get at h
  split at h
  · obtain ⟨entry, hentry, hkey⟩ := AssocList.exists_of_lookup_foldl (f := tableEntry sha224) h
    obtain ⟨hsame, rfl⟩ := Prod.mk.inj hkey
    refine ⟨entry, hentry, ?_, rfl⟩
    rw [hsame]
    rfl
  · cases h

theorem get_of_entry {sha224 : Bytes → Vector UInt8 28} {users : List (String × String × UInt32)}
    {entry : String × String × UInt32} (hentry : entry ∈ users)
    (hone : ∀ e ∈ users, trojanKey sha224 e.1 = trojanKey sha224 entry.1 → e.2 = entry.2) :
    (TrojanUsers.new sha224 users).get (trojanKey sha224 entry.1).toList =
      some ⟨entry.2.1, entry.2.2⟩ := by
  unfold TrojanUsers.get
  rw [dif_pos Vector.length_toList]
  refine AssocList.lookup_foldl_of_mem (f := tableEntry sha224) hentry rfl fun e he hkey => ?_
  unfold tableEntry
  rw [hone e he hkey]

end Trojan

namespace Vless

/-- What the table has for a user. -/
def tableEntry (entry : Vector UInt8 16 × String × UInt32) : Vector UInt8 16 × VlessUser :=
  (entry.1, ⟨entry.1, entry.2.1, entry.2.2⟩)

theorem entry_of_get {users : List (Vector UInt8 16 × String × UInt32)} {id : Bytes}
    {user : VlessUser} (h : (VlessUsers.new users).get id = some user) :
    ∃ entry ∈ users, id = entry.1.toList ∧ user.email = entry.2.1 := by
  unfold VlessUsers.get at h
  split at h
  · obtain ⟨entry, hentry, hkey⟩ := AssocList.exists_of_lookup_foldl (f := tableEntry) h
    obtain ⟨hsame, rfl⟩ := Prod.mk.inj hkey
    refine ⟨entry, hentry, ?_, rfl⟩
    rw [hsame]
    rfl
  · cases h

theorem get_of_entry {users : List (Vector UInt8 16 × String × UInt32)}
    {entry : Vector UInt8 16 × String × UInt32} (hentry : entry ∈ users)
    (hone : ∀ e ∈ users, e.1 = entry.1 → e.2 = entry.2) :
    (VlessUsers.new users).get entry.1.toList = some ⟨entry.1, entry.2.1, entry.2.2⟩ := by
  unfold VlessUsers.get
  rw [dif_pos Vector.length_toList]
  refine AssocList.lookup_foldl_of_mem (f := tableEntry) hentry rfl fun e he hkey => ?_
  have hid : e.1 = entry.1 := hkey
  unfold tableEntry
  rw [hid, hone e he hid]

end Vless

theorem Ss.user_of_matchUser {P : Primitives} {kind : AeadKind} {salt lenct lenpt : Bytes}
    {users : List SsUser} {user : SsUser} {aead : Aead} {nonce : NonceCtr}
    (h : matchUser P kind salt lenct users = some (user, aead, nonce, lenpt)) :
    user ∈ users ∧ deriveAead P kind user.master salt = .ok aead ∧
      aead.open P (NonceCtr.new kind.nonceSize).bytes lenct = .ok lenpt := by
  induction users with
  | nil => cases h
  | cons first users ih =>
    rw [matchUser] at h
    split at h
    · obtain ⟨hmem, hrest⟩ := ih h
      exact ⟨List.mem_cons_of_mem _ hmem, hrest⟩
    · next a ha =>
      dsimp only at h
      split at h
      · obtain ⟨hmem, hrest⟩ := ih h
        exact ⟨List.mem_cons_of_mem _ hmem, hrest⟩
      · next plain hopen =>
        cases h
        exact ⟨List.mem_cons_self, ha, hopen⟩

/-- What a stream that is decoded begins with. -/
theorem Ss.user_of_decode {P : Primitives} {kind : AeadKind} {users : List SsUser}
    {ssalt src : Bytes} {s : Session} (h : decode P kind users ssalt src = .ok s) :
    ∃ salt lenct rest aead lenpt, src = salt ++ lenct ++ rest ∧ salt.length = kind.keySize ∧
      lenct.length = 2 + tag ∧ s.user ∈ users ∧
      deriveAead P kind s.user.master salt = .ok aead ∧
      aead.open P (NonceCtr.new kind.nonceSize).bytes lenct = .ok lenpt := by
  unfold decode at h
  split at h
  · cases h
  next salt afterSalt hsalt =>
  split at h
  · cases h
  next lenct rest hlenct =>
  split at h
  · cases h
  next user aead nonce lenpt hmatch =>
  obtain ⟨rfl, hslen⟩ := readExact_eq_some hsalt
  obtain ⟨rfl, hllen⟩ := readExact_eq_some hlenct
  obtain ⟨huser, hderive, hopen⟩ := user_of_matchUser hmatch
  have hsame : s.user = user := by
    repeat' split at h
    all_goals cases h
    rfl
  rw [hsame]
  exact ⟨salt, lenct, rest, aead, lenpt, by simp, hslen, hllen, huser, hderive, hopen⟩

namespace Saas

open Traffic (parseUserTag)

/-! ## Who is served -/

/-- The primitives that the panel's inbounds need: those of the handlers, and the hashes of
their tables. -/
structure PanelPrimitives extends Vmess.HeaderPrimitives where
  sha1 : Bytes → Vector UInt8 20
  sha224 : Bytes → Vector UInt8 28

/-- The authID was made with the key of the UUID, with a timestamp that is good at clock
time `now`. -/
def Uuid.Takes (P : PanelPrimitives) (now : Nat) (id : Uuid) (authid : Vmess.Block) : Prop :=
  (Vmess.VmessUser.new P.toHeaderPrimitives (id, "", 0)).Timely P.crc32 authid
    (Vmess.clockI64 now)

/-- A stream with these reads, on a connection with this session, is served at clock time
`now` as that of the user with this tag.  A VMess inbound is in the state `h`. -/
inductive Inbound.Admits (P : PanelPrimitives) (h : Vmess.Handler) (ctx : Ctx) (now : Nat)
    (reads : List Bytes) : Inbound → String → Prop
  | vless {table : List (Uuid × String × UInt32)} {d : Decoding} {email : String}
      (hdecode : StreamInbound.vlessDecode (.new table) ctx reads = .ok d)
      (hserved : d.session = some (ctx.ofUser email)) :
      Admits P h ctx now reads (.vless table) email
  | vmess {table : List (Uuid × String × UInt32)} {h' : Vmess.Handler} {left : List Bytes}
      {req : Vmess.Request} (hh : h.users = .new P.toHeaderPrimitives table)
      (hread : h.readHeader P.toHeaderPrimitives now reads = (.ok req, h', left)) :
      Admits P h ctx now reads (.vmess table) req.email
  | trojan {table : List (String × String × UInt32)} {d : Decoding} {email : String}
      (hdecode : StreamInbound.trojanDecode (.new P.sha224 table) ctx reads = .ok d)
      (hserved : d.session = some (ctx.ofUser email)) :
      Admits P h ctx now reads (.trojan table) email
  | shadowsocks {kind : AeadKind} {table : List (String × String × UInt32)} {ssalt : Bytes}
      {session : Ss.Session}
      (hdecode : Ss.decode P.toPrimitives kind (Ss.buildSsUsers P.toPrimitives kind table) ssalt
        reads.flatten = .ok session) :
      Admits P h ctx now reads (.shadowsocks kind table) session.user.email

/-- The stream begins with the credentials of the user: the UUID, an authID of the UUID's
key with a timestamp that is good at clock time `now`, the key of the password, or a length
record that the cipher of the password opens. -/
inductive UserInfo.Shows (P : PanelPrimitives) (now : Nat) (stream : Bytes) (user : UserInfo) :
    Inbound → Prop
  | vless {table : List (Uuid × String × UInt32)} {id : Uuid} {rest : Bytes}
      (hid : Uuid.parseStr P.sha1 user.uuid = some id) (hstream : stream = 0 :: id.toList ++ rest) :
      Shows P now stream user (.vless table)
  | vmess {table : List (Uuid × String × UInt32)} {id : Uuid} {authid : Vmess.Block}
      {rest : Bytes} (hid : Uuid.parseStr P.sha1 user.uuid = some id)
      (hstream : stream = authid.toList ++ rest) (htakes : Uuid.Takes P now id authid) :
      Shows P now stream user (.vmess table)
  | trojan {table : List (String × String × UInt32)} {rest : Bytes}
      (hstream : stream = (Trojan.trojanKey P.sha224 user.uuid).toList ++ rest) :
      Shows P now stream user (.trojan table)
  | shadowsocks {kind : AeadKind} {table : List (String × String × UInt32)}
      {salt lenct rest lenpt : Bytes} {aead : Aead} (hstream : stream = salt ++ lenct ++ rest)
      (hsalt : salt.length = kind.keySize) (hlenct : lenct.length = 2 + Ss.tag)
      (hderive : Ss.deriveAead P.toPrimitives kind
        (evpBytesToKey P.toPrimitives (asBytes user.passwd) kind.keySize) salt = .ok aead)
      (hopen : aead.open P.toPrimitives (NonceCtr.new kind.nonceSize).bytes lenct = .ok lenpt) :
      Shows P now stream user (.shadowsocks kind table)

section Handlers

variable {P : PanelPrimitives} {h : Vmess.Handler} {ctx : Ctx} {now : Nat} {stream : Bytes}
  {reads : List Bytes} {users : List UserInfo} {nodeTag : String}

theorem mem_buildUuidUsers {sha1 : Bytes → Vector UInt8 20} {entry : Uuid × String × UInt32} :
    entry ∈ buildUuidUsers sha1 users nodeTag ↔ ∃ user ∈ users, ∃ id,
      Uuid.parseStr sha1 user.uuid = some id ∧ entry = (id, buildUserTag nodeTag user, 0) := by
  unfold buildUuidUsers
  rw [List.mem_filterMap]
  constructor
  · rintro ⟨user, huser, hentry⟩
    obtain ⟨id, hid, rfl⟩ := Option.map_eq_some_iff.mp hentry
    exact ⟨user, huser, id, hid, rfl⟩
  · rintro ⟨user, huser, id, hid, rfl⟩
    exact ⟨user, huser, Option.map_eq_some_iff.mpr ⟨id, hid, rfl⟩⟩

theorem ofUser_inj {email email' : String} (h : ctx.ofUser email = ctx.ofUser email') :
    email = email' :=
  Option.some.inj (congrArg Ctx.userEmail h)

/-- **An inbound serves the users it was built from.** -/
theorem Inbound.Admits.shows {handler : Inbound} {email : String} (hcut : IsCut stream reads)
    (hbuilt : handler.BuiltFrom P.sha1 users nodeTag)
    (hadmits : handler.Admits P h ctx now reads email) :
    ∃ user ∈ users, email = buildUserTag nodeTag user ∧ user.Shows P now stream handler := by
  cases hadmits with
  | vless hdecode hserved =>
    have hshows := @StreamInbound.shows_of_vlessDecode (fun _ => none) _ _ _ _ _ _ hcut hdecode hserved
    generalize hsession : ctx.ofUser email = session at hshows
    cases hshows with
    | vless hget =>
      obtain ⟨entry, hentry, rfl, hemail⟩ := Vless.entry_of_get hget
      obtain rfl : _ = buildVlessUsers P.sha1 users nodeTag := hbuilt
      obtain ⟨user, huser, id, hid, rfl⟩ := mem_buildUuidUsers.mp hentry
      exact ⟨user, huser, (ofUser_inj hsession).trans hemail, .vless hid rfl⟩
  | trojan hdecode hserved =>
    have hshows := @StreamInbound.shows_of_trojanDecode (fun _ => none) _ _ _ _ _ _ hcut hdecode hserved
    generalize hsession : ctx.ofUser email = session at hshows
    cases hshows with
    | trojan hget =>
      obtain ⟨entry, hentry, rfl, hemail⟩ := Trojan.entry_of_get hget
      obtain rfl : _ = buildTrojanUsers users nodeTag := hbuilt
      obtain ⟨user, huser, rfl⟩ := List.mem_map.mp hentry
      exact ⟨user, huser, (ofUser_inj hsession).trans hemail, .trojan rfl⟩
  | vmess hh hread =>
    obtain ⟨authid, matched, bytes, -, -, hstream, hauth, -, -, rfl⟩ :=
      Vmess.readHeader_eq_ok (fun r hr => (hcut.2 r hr).1) hread
    obtain ⟨vuser, hvuser, htimely, -, hemail⟩ := Vmess.authenticate_eq_ok hauth
    rw [hh] at hvuser
    obtain rfl : _ = buildVmessUsers P.sha1 users nodeTag := hbuilt
    obtain ⟨entry, hentry, rfl⟩ := List.mem_map.mp hvuser
    obtain ⟨user, huser, id, hid, rfl⟩ := mem_buildUuidUsers.mp hentry
    exact ⟨user, huser, hemail, .vmess hid (hcut.1.symm.trans hstream) htimely⟩
  | shadowsocks hdecode =>
    obtain ⟨salt, lenct, rest, aead, lenpt, hstream, hsalt, hlenct, hmem, hderive, hopen⟩ :=
      Ss.user_of_decode hdecode
    obtain rfl : _ = buildSsUserIter users nodeTag := hbuilt
    obtain ⟨entry, hentry, hsession⟩ := List.mem_map.mp hmem
    obtain ⟨user, huser, rfl⟩ := List.mem_map.mp hentry
    rw [← hsession] at hderive ⊢
    exact ⟨user, huser, rfl, .shadowsocks (hcut.1.symm.trans hstream) hsalt hlenct hderive hopen⟩

/-- A user among `users` sends this stream at clock time `now`, with credentials that no other
of the users has, and the payload.  For VLESS and Trojan it is a request for TCP with a
canonical target; for VMess one with any header of the right form, whose authID is in the
user's window and is taken by the replay filter; and for Shadowsocks a stream to a canonical
target, where the keys of the other users fail on its first record. -/
inductive UserInfo.Asks (P : PanelPrimitives) (h : Vmess.Handler) (users : List UserInfo)
    (now : Nat) (user : UserInfo) : Inbound → Bytes → Prop
  | vless {table : List (Uuid × String × UInt32)} {id : Uuid} {addons wire payload : Bytes}
      {dest : Destination} (hid : Uuid.parseStr P.sha1 user.uuid = some id)
      (hone : ∀ u ∈ users, Uuid.parseStr P.sha1 u.uuid = some id → u = user)
      (haddons : addons.length ≤ 255) (hnet : dest.network = .tcp)
      (hcanon : dest.address.Canonical) (hwire : Vless.encode id addons (.tcp dest) = .ok wire) :
      Asks P h users now user (.vless table) (wire ++ payload)
  | vmess {table : List (Uuid × String × UInt32)} {id : Uuid} {r : Vmess.ClientRequest}
      {req : Vmess.Request} {lenct payct pad payload : Bytes}
      (hid : Uuid.parseStr P.sha1 user.uuid = some id)
      (hkey : r.cmdKey = Vmess.cmdKey P.toHeaderPrimitives id)
      (hh : h.users = .new P.toHeaderPrimitives table)
      (hfresh : (h.replayFilter.checkInsert r.authid now).1 = true)
      (htakes : Uuid.Takes P now id r.authid)
      (hone : ∀ u ∈ users, ∀ id', Uuid.parseStr P.sha1 u.uuid = some id' →
        Uuid.Takes P now id' r.authid → u = user)
      (hform : Vmess.HeaderOf r.header req pad)
      (hopens : r.Opens P.toHeaderPrimitives lenct payct) :
      Asks P h users now user (.vmess table)
        (r.authid.toList ++ lenct ++ r.nonce.toList ++ payct ++ payload)
  | trojan {table : List (String × String × UInt32)} {wire payload : Bytes} {dest : Destination}
      (hone : ∀ u ∈ users,
        Trojan.trojanKey P.sha224 u.uuid = Trojan.trojanKey P.sha224 user.uuid → u = user)
      (hnet : dest.network = .tcp) (hcanon : dest.address.Canonical)
      (hwire : Trojan.encode (Trojan.trojanKey P.sha224 user.uuid) dest = .ok wire) :
      Asks P h users now user (.trojan table) (wire ++ payload)
  | shadowsocks {ob : Ss.SsOutbound} {table : List (String × String × UInt32)} {salt stream : Bytes}
      {target : Address} {port : UInt16} {blocks : List Bytes}
      (hmaster : ob.master = evpBytesToKey P.toPrimitives (asBytes user.passwd) ob.kind.keySize)
      (hsalt : salt.length = ob.kind.keySize)
      (hone : ∀ u ∈ users, Ss.deriveAead P.toPrimitives ob.kind
        (evpBytesToKey P.toPrimitives (asBytes u.passwd) ob.kind.keySize) salt =
          Ss.deriveAead P.toPrimitives ob.kind ob.master salt → u = user)
      (hapart : ∀ aead, Ss.deriveAead P.toPrimitives ob.kind ob.master salt = .ok aead →
        Ss.KeysApart P.toPrimitives (Ss.buildSsUsers P.toPrimitives ob.kind table) salt aead)
      (hcanon : target.Canonical)
      (hwire : ob.uplink P.toPrimitives salt (.tcp target port) blocks = .ok stream) :
      Asks P h users now user (.shadowsocks ob.kind table) stream

/-- **A user of the list is served as this user.** -/
theorem UserInfo.Asks.admits (hP : P.Lawful) {handler : Inbound} {user : UserInfo}
    (huser : user ∈ users) (hbuilt : handler.BuiltFrom P.sha1 users nodeTag)
    (hasks : user.Asks P h users now handler stream) (hcut : IsCut stream reads) :
    handler.Admits P h ctx now reads (buildUserTag nodeTag user) := by
  cases hasks with
  | @vless table id addons wire payload dest hid hone haddons hnet hcanon hwire =>
    obtain rfl : table = buildVlessUsers P.sha1 users nodeTag := hbuilt
    have hentry : (id, buildUserTag nodeTag user, 0) ∈ buildVlessUsers P.sha1 users nodeTag :=
      mem_buildUuidUsers.mpr ⟨user, huser, id, hid, rfl⟩
    have hget := Vless.get_of_entry hentry fun e he heq => by
      obtain ⟨u, hu, id', hid', rfl⟩ := mem_buildUuidUsers.mp he
      obtain rfl : id' = id := heq
      rw [hone u hu hid']
    obtain ⟨leftover, unread, -, hdecode⟩ :=
      StreamInbound.vlessDecode_encode hget haddons hnet hcanon hwire hcut
    exact .vless hdecode rfl
  | @trojan table wire payload dest hone hnet hcanon hwire =>
    obtain rfl : table = buildTrojanUsers users nodeTag := hbuilt
    have hentry : (user.uuid, buildUserTag nodeTag user, 0) ∈ buildTrojanUsers users nodeTag :=
      List.mem_map_of_mem huser
    have hget := @Trojan.get_of_entry P.sha224 _ _ hentry fun e he heq => by
      obtain ⟨u, hu, rfl⟩ := List.mem_map.mp he
      rw [hone u hu heq]
    obtain ⟨leftover, unread, -, hdecode⟩ :=
      StreamInbound.trojanDecode_encode hget hnet hcanon hwire hcut
    exact .trojan hdecode rfl
  | @vmess table id r req lenct payct pad payload hid hkey hh hfresh htakes hone hform hopens =>
    obtain rfl : table = buildVmessUsers P.sha1 users nodeTag := hbuilt
    have hentry : (id, buildUserTag nodeTag user, 0) ∈ buildVmessUsers P.sha1 users nodeTag :=
      mem_buildUuidUsers.mpr ⟨user, huser, id, hid, rfl⟩
    have htable : h.users.Timely P.crc32 r.authid now := by
      rw [hh]
      exact ⟨_, List.mem_map_of_mem hentry, htakes⟩
    have hapart : ∀ v ∈ h.users.users, v.Timely P.crc32 r.authid (Vmess.clockI64 now) →
        v.cmdKey = r.cmdKey ∧ v.email = buildUserTag nodeTag user := by
      rw [hh]
      intro v hv htimely
      obtain ⟨e, he, rfl⟩ := List.mem_map.mp hv
      obtain ⟨u, hu, id', hid', rfl⟩ := mem_buildUuidUsers.mp he
      obtain rfl := hone u hu id' hid' htimely
      obtain rfl := Option.some.inj (hid.symm.trans hid')
      exact ⟨hkey.symm, rfl⟩
    obtain ⟨matched, h', hauth, hmkey, hemail⟩ :=
      Vmess.authenticate_of_timely htable hapart hfresh
    obtain ⟨left, hread, -, -⟩ := Vmess.readHeader_of_opens hopens
      (fun r hr => (hcut.2 r hr).1) hcut.1 hauth hmkey hform.accepted.1
    exact hemail ▸ .vmess hh hread
  | @shadowsocks ob table salt stream target port blocks hmaster hsalt hone hapart hcanon hwire =>
    obtain rfl : table = buildSsUserIter users nodeTag := hbuilt
    have hmem : ∃ u ∈ Ss.buildSsUsers P.toPrimitives ob.kind (buildSsUserIter users nodeTag),
        u.master = ob.master :=
      ⟨_, List.mem_map_of_mem (List.mem_map_of_mem huser), hmaster.symm⟩
    obtain ⟨bytes, session, hbytes, hdecode, ⟨before, after, hsplit, hderive, -⟩, -⟩ :=
      Ss.decode_uplink hP.body ob [] hsalt hmem hapart hcanon port blocks
    obtain rfl := Except.ok.inj (hwire.symm.trans hbytes)
    have hsession : session.user ∈
        Ss.buildSsUsers P.toPrimitives ob.kind (buildSsUserIter users nodeTag) :=
      hsplit ▸ by simp
    obtain ⟨entry, hentry, hu⟩ := List.mem_map.mp hsession
    obtain ⟨u, hu', rfl⟩ := List.mem_map.mp hentry
    rw [← hu] at hderive
    obtain rfl := hone u hu' hderive
    have hadmits : Inbound.Admits P h ctx now reads
        (.shadowsocks ob.kind (buildSsUserIter users nodeTag)) session.user.email :=
      .shadowsocks (hcut.1 ▸ hdecode)
    rw [← hu] at hadmits
    exact hadmits

end Handlers

/-! ## Whose users they are -/

namespace Server

section Runs

variable {ι : Type} {sha1 : Bytes → Vector UInt8 20} {s t : Server ι} {a : Act ι} {i : ι}
  {c : Controller} {ibm : InboundManager ι} {phase : Phase}

/-- A controller that polls finds its own inbound under its node's tag, or none. -/
def TagIsOwn (s : Server ι) : Act ι → Prop
  | .poll i _ => ∀ j handler, s.ibm.Runs j (s.controller i).nodeTag handler → j = i
  | _ => True

/-- The inbounds of the manager are those of controllers between two polls, under the tags
of their nodes, and with the users on their lists. -/
def OwnUsers (sha1 : Bytes → Vector UInt8 20) (s : Server ι) : Prop :=
  ∀ i tag handler, s.ibm.Runs i tag handler → s.phase i = .idle ∧
    tag = (s.controller i).nodeTag ∧ handler.BuiltFrom sha1 (s.controller i).userList tag

theorem new_ownUsers (listenIp : ι → String) (cert : ι → CertConfig) :
    OwnUsers sha1 (new listenIp cert) := by
  intro i tag handler hruns
  cases hruns

theorem OwnUsers.runsNone (h : OwnUsers sha1 s) (hphase : s.phase i ≠ .idle) :
    RunsNone i s.ibm :=
  fun tag handler hruns => hphase (h i tag handler hruns).1

variable [DecidableEq ι]

/-- It is enough to look at the controller whose turn it is, if the others have no new
inbounds. -/
theorem OwnUsers.set (h : OwnUsers sha1 s)
    (hi : ∀ tag handler, ibm.Runs i tag handler → phase = .idle ∧ tag = c.nodeTag ∧
      handler.BuiltFrom sha1 c.userList tag)
    (hothers : ∀ j, j ≠ i → ∀ tag handler, ibm.Runs j tag handler → s.ibm.Runs j tag handler) :
    OwnUsers sha1 (s.set i c ibm phase) := by
  intro j tag handler hruns
  by_cases hj : j = i
  · subst hj
    show Function.update s.phase j phase j = .idle ∧
      tag = (Function.update s.controller j c j).nodeTag ∧
        handler.BuiltFrom sha1 (Function.update s.controller j c j).userList tag
    rw [Function.update_self, Function.update_self]
    exact hi tag handler hruns
  · show Function.update s.phase i phase j = .idle ∧
      tag = (Function.update s.controller i c j).nodeTag ∧
        handler.BuiltFrom sha1 (Function.update s.controller i c j).userList tag
    rw [Function.update_of_ne hj, Function.update_of_ne hj]
    exact h j tag handler (hothers j hj tag handler hruns)

/-- An inbound that was added has the users it was built from. -/
theorem OwnUsers.added (h : OwnUsers sha1 s) {node : NodeInfo} {users : List UserInfo}
    {host : Host} {built : BuiltInbound} (hnone : RunsNone i s.ibm) (hlist : c.userList = users)
    (htag : c.nodeTag = built.tag)
    (hbuilt : buildInbound sha1 host node users c.listenIp c.cert = .ok built) :
    OwnUsers sha1
      (s.set i c ⟨Function.update s.ibm.running built.tag (some ⟨built.handler, i⟩)⟩ .idle) := by
  obtain ⟨-, hhandler⟩ := buildInbound_eq_ok hbuilt
  refine h.set (fun tag handler hruns => ?_) fun j hj tag handler hruns => ?_
  · obtain ⟨rfl, hrunning⟩ | ⟨-, hruns⟩ := InboundManager.runs_update.mp hruns
    · obtain rfl := congrArg Running.handler hrunning
      exact ⟨rfl, htag.symm, hlist ▸ hhandler⟩
    · exact (hnone tag handler hruns).elim
  · obtain ⟨-, hrunning⟩ | ⟨-, hruns⟩ := InboundManager.runs_update.mp hruns
    · exact absurd (congrArg Running.owner hrunning).symm hj
    · exact hruns

/-- **Every turn keeps the users of the inbounds**, if a poll finds its own. -/
theorem Step.ownUsers (h : Step sha1 s a t) (hs : OwnUsers sha1 s) (hown : TagIsOwn s a) :
    OwnUsers sha1 t := by
  cases h with
  | @start i host replies c ibm hphase hstart =>
    obtain ⟨etags, users, built, node, rfl, hbuilt, hadd, -⟩ := Controller.start_eq_some hstart
    obtain ⟨-, rfl⟩ := InboundManager.add_eq_some hadd
    exact hs.added (hs.runsNone (by rw [hphase]; nofun)) rfl rfl hbuilt
  | @poll i replies begun hphase hbegun =>
    obtain ⟨etags, ⟨pruned, hcase⟩ | ⟨node, users, pruned, hcase⟩ |
      ⟨users, handler, handler', pruned, hhandler, happly, hcase⟩⟩ :=
      Controller.beginMonitor_cases (c := s.controller i)
    all_goals
      rw [hbegun] at hcase
      subst hcase
    · exact hs.set (fun tag h hruns => ⟨rfl, (hs i tag h hruns).2⟩) fun j _ tag h => id
    · refine hs.set (fun tag h hruns => ?_) fun j _ tag h hruns =>
        (InboundManager.runs_remove.mp hruns).2
      obtain ⟨hne, hruns⟩ := InboundManager.runs_remove.mp hruns
      exact absurd (hs i tag h hruns).2.1 hne
    · obtain ⟨⟨old, j⟩, hrunning, rfl⟩ := Option.map_eq_some_iff.mp hhandler
      obtain rfl := hown j old hrunning
      have hruns : s.ibm.Runs j (s.controller j).nodeTag old := hrunning
      obtain ⟨new, hnew, hbuilt⟩ := applyUsers_builtFrom sha1 (hs j _ _ hruns).2.2 users
      obtain rfl : handler' = new := Option.some.inj (happly.symm.trans hnew)
      dsimp only
      rw [hruns.setHandler]
      refine hs.set (fun tag h hruns' => ?_) fun k hk tag h hruns' => ?_
      · obtain ⟨rfl, hrunning⟩ | ⟨hne, hruns'⟩ := InboundManager.runs_update.mp hruns'
        · obtain rfl := congrArg Running.handler hrunning
          exact ⟨rfl, rfl, hbuilt⟩
        · exact absurd (hs j tag h hruns').2.1 hne
      · obtain ⟨-, hrunning⟩ | ⟨-, hruns'⟩ := InboundManager.runs_update.mp hruns'
        · exact absurd (congrArg Running.owner hrunning).symm hk
        · exact hruns'
  | @rebuild i host node users c ibm hphase hend =>
    have hnone := hs.runsNone (i := i) (by rw [hphase]; nofun)
    by_cases hrebuilds : (s.controller i).Rebuilds sha1 host node users s.ibm
    · obtain ⟨built, hbuilt, hfree, hbind⟩ := hrebuilds
      rw [Controller.endMonitor_of_rebuilds hbuilt hfree hbind] at hend
      cases hend
      exact hs.added hnone rfl rfl hbuilt
    · rw [Controller.endMonitor_of_not_rebuilds hrebuilds] at hend
      cases hend
      exact hs.set (fun tag h hruns => (hnone tag h hruns).elim) fun j _ tag h => id
  | @stop i hphase =>
    refine hs.set (fun tag h hruns => ?_) fun j _ tag h hruns =>
      (InboundManager.runs_remove.mp hruns).2
    obtain ⟨hne, hruns⟩ := InboundManager.runs_remove.mp hruns
    exact absurd (hs i tag h hruns).2.1 hne

/-- A served controller finds its own inbound. -/
theorem InPhases.tagIsOwn (h : InPhases sha1 s) (hstep : Step sha1 s a t) : TagIsOwn s a := by
  cases hstep with
  | @poll i replies begun hphase hbegun =>
    intro j handler hruns
    obtain ⟨handler', hruns'⟩ := (h.allServed i hphase).runs
    exact hruns.owner_eq hruns'
  | start | rebuild | stop => trivial

/-- Where every rebuild succeeds, controllers find their own inbounds. -/
theorem tagIsOwn_of_rebuildSucceeds {trace : List (Act ι × Server ι)}
    (h : Run (Step sha1) s trace t) (hs : InPhases sha1 s)
    (hguard : Meets (RebuildSucceeds sha1) s trace) : Meets TagIsOwn s trace := by
  induction h with
  | nil => trivial
  | cons hfirst _ ih =>
    exact ⟨hs.tagIsOwn hfirst, ih (hfirst.inPhases hs hguard.1) hguard.2⟩

end Runs

end Server

/-- **The panel's inbounds serve its users.**  For all controllers that share a manager,
in every interleaving of their turns where each finds its own inbound, whatever the panel
and the host answer: whoever is admitted by a running inbound, its stream cut in any way,
shows the credentials of a user on the list of the one controller the inbound belongs to;
the session's tag is this user's, this controller reports it as this user, and no
controller of another node reports it at all. -/
theorem panel_serves_its_users {ι : Type} [DecidableEq ι] {P : PanelPrimitives}
    {listenIp : ι → String} (hip : ∀ i, '|' ∉ (listenIp i).toList) (cert : ι → CertConfig)
    {trace : List (Act ι × Server ι)} {s : Server ι}
    (hrun : Run (Server.Step P.sha1) (.new listenIp cert) trace s)
    (hown : Meets Server.TagIsOwn (.new listenIp cert) trace) {i : ι} {tag : String}
    {handler : Inbound} (hruns : s.ibm.Runs i tag handler) {h : Vmess.Handler} {ctx : Ctx}
    {now : Nat} {stream : Bytes} {reads : List Bytes} (hcut : IsCut stream reads) {email : String}
    (hadmits : handler.Admits P h ctx now reads email) :
    s.phase i = .idle ∧ tag = (s.controller i).nodeTag ∧
      ∃ user ∈ (s.controller i).userList, user.Shows P now stream handler ∧
        email = buildUserTag tag user ∧
        parseUserTag tag email = some (user.uid.toInt, user.email) ∧
        ∀ j, (s.controller j).nodeTag ≠ tag →
          parseUserTag (s.controller j).nodeTag email = none := by
  have hs := hrun.invariant_of_meets (Server.new_ownUsers listenIp cert) hown
    fun _ _ _ hown hs hstep => hstep.ownUsers hs hown
  have hbars : ∀ i, (s.controller i).NoBar :=
    hrun.invariant (fun i => ⟨hip i, List.not_mem_nil⟩) fun _ _ _ hs hstep => hstep.noBar hs
  obtain ⟨hphase, htag, hbuilt⟩ := hs i tag handler hruns
  obtain ⟨user, huser, hemail, hshows⟩ := hadmits.shows hcut hbuilt
  refine ⟨hphase, htag, user, huser, hshows, hemail, ?_, fun j hj => ?_⟩
  · rw [hemail]
    exact parseUserTag_buildUserTag tag user
  · rw [hemail]
    exact parseUserTag_of_ne (hbars j).2 (htag ▸ (hbars i).2) hj user

/-- **Every user of the list is served.**  In the same runs: where an inbound is running, a
request of a user on the list of its controller, with credentials that are this user's alone,
is admitted however it is cut, and the session has the user's tag.  `UserInfo.Asks` says which
requests: for VLESS and Trojan those for TCP, for VMess those whose authID is timely and not
taken, for Shadowsocks those under which the users' keys are apart, and a target that is
encoded is canonical. -/
theorem panel_user_admitted {ι : Type} [DecidableEq ι] {P : PanelPrimitives} (hP : P.Lawful)
    (listenIp : ι → String) (cert : ι → CertConfig) {trace : List (Act ι × Server ι)}
    {s : Server ι} (hrun : Run (Server.Step P.sha1) (.new listenIp cert) trace s)
    (hown : Meets Server.TagIsOwn (.new listenIp cert) trace) {i : ι} {tag : String}
    {handler : Inbound} (hruns : s.ibm.Runs i tag handler) {user : UserInfo}
    (huser : user ∈ (s.controller i).userList) (h : Vmess.Handler) (ctx : Ctx) {now : Nat}
    {stream : Bytes} (hasks : user.Asks P h (s.controller i).userList now handler stream)
    {reads : List Bytes} (hcut : IsCut stream reads) :
    handler.Admits P h ctx now reads (buildUserTag tag user) := by
  have hs := hrun.invariant_of_meets (Server.new_ownUsers listenIp cert) hown
    fun _ _ _ hown hs hstep => hstep.ownUsers hs hown
  obtain ⟨-, -, hbuilt⟩ := hs i tag handler hruns
  exact hasks.admits hP huser hbuilt hcut

/-! ### A VLESS node with one user -/

/-- A VLESS node. -/
def vlessNode : NodeInfo := { plainNode 443 "tcp" with nodeType := .vless }

/-- Its user. -/
def onlyUser : UserInfo :=
  ⟨7, "dora", "b831381d-6324-4d53-ad4f-8cda48b30811", "", 0, 0, "", 0, 0⟩

/-- The primitives of one authID, with hashes that these UUIDs and passwords do not need. -/
def onePanel : PanelPrimitives :=
  ⟨Vmess.onePrimitives, fun _ => .replicate 20 0, fun _ => .replicate 28 0⟩

/-- The id that the UUID spells. -/
def onlyId : Uuid :=
  #v[0xb8, 0x31, 0x38, 0x1d, 0x63, 0x24, 0x4d, 0x53, 0xad, 0x4f, 0x8c, 0xda, 0x48, 0xb3, 0x08, 0x11]

/-- A request of the user, and a payload. -/
def onlyStream : Bytes := 0 :: onlyId.toList ++ [0, 1, 0, 80, 2, 3, 97, 46, 98] ++ [71]

theorem onlyUser_asks (h : Vmess.Handler) (table : List (Uuid × String × UInt32)) :
    onlyUser.Asks onePanel h [onlyUser] 1000 (.vless table) onlyStream := by
  have hid : Uuid.parseStr onePanel.sha1 onlyUser.uuid = some onlyId := by decide +kernel
  have hcanon : (Address.domain "a.b").Canonical :=
    ⟨by decide, by decide, by decide, by decide⟩
  exact @UserInfo.Asks.vless _ _ _ _ _ _ _ [] _ _ (.tcp (.domain "a.b") 80) hid
    (fun u hu _ => List.mem_singleton.mp hu) (by decide) rfl hcanon rfl

/-- The inbound of the node. -/
def onlyInbound : Inbound :=
  .vless (buildVlessUsers onePanel.sha1 [onlyUser] (buildNodeTag vlessNode "0.0.0.0"))

/-- The only controller of a server starts. -/
theorem started_only : ∃ (trace : List (Act Unit × Server Unit)) (s : Server Unit),
    Run (Server.Step onePanel.sha1) (.new (fun _ => "0.0.0.0") fun _ => noCert) trace s ∧
      Meets Server.TagIsOwn (.new (fun _ => "0.0.0.0") fun _ => noCert) trace ∧
      s.ibm.Runs () (buildNodeTag vlessNode "0.0.0.0") onlyInbound ∧
      (s.controller ()).userList = [onlyUser] := by
  refine ⟨_, _, .cons (.start () openHost ⟨freshReply "n1" vlessNode, freshReply "u1" [onlyUser]⟩
    rfl rfl) (.nil _), ⟨trivial, trivial⟩, ?_, rfl⟩
  exact InboundManager.runs_update.mpr (.inl ⟨rfl, rfl⟩)

theorem onlyInbound_admits : onlyInbound.Admits onePanel (.new ⟨[]⟩) ⟨none, none, none⟩ 1000
    [onlyStream.take 20, onlyStream.drop 20]
    (buildUserTag (buildNodeTag vlessNode "0.0.0.0") onlyUser) :=
  (onlyUser_asks _ _).admits (Vmess.referencePrimitives_lawful _) (List.mem_singleton.mpr rfl) rfl
    ⟨by decide, by decide⟩

theorem panel_user_admitted_vless : ∃ tag, tag = buildNodeTag vlessNode "0.0.0.0" ∧
    onlyInbound.Admits onePanel (.new ⟨[]⟩) ⟨none, none, none⟩ 1000
      [onlyStream.take 20, onlyStream.drop 20] (buildUserTag tag onlyUser) := by
  obtain ⟨trace, s, hrun, hown, hruns, hlist⟩ := started_only
  have hcut : IsCut onlyStream [onlyStream.take 20, onlyStream.drop 20] := ⟨by decide, by decide⟩
  refine ⟨_, rfl, panel_user_admitted (Vmess.referencePrimitives_lawful _) _ _ hrun hown hruns
    ?_ _ _ ?_ hcut⟩
  · rw [hlist]
    exact List.mem_singleton.mpr rfl
  · rw [hlist]
    exact onlyUser_asks _ _

theorem panel_serves_its_users_vless : ∃ user ∈ [onlyUser],
    user.Shows onePanel 1000 onlyStream onlyInbound ∧
      parseUserTag (buildNodeTag vlessNode "0.0.0.0")
        (buildUserTag (buildNodeTag vlessNode "0.0.0.0") onlyUser) =
          some (user.uid.toInt, user.email) := by
  obtain ⟨trace, s, hrun, hown, hruns, hlist⟩ := started_only
  have hcut : IsCut onlyStream [onlyStream.take 20, onlyStream.drop 20] := ⟨by decide, by decide⟩
  obtain ⟨-, -, user, huser, hshows, -, hparse, -⟩ := panel_serves_its_users
    (fun _ => by decide) _ hrun hown hruns hcut onlyInbound_admits
  exact ⟨user, hlist ▸ huser, hshows, hparse⟩

end Saas

end XrayRs
