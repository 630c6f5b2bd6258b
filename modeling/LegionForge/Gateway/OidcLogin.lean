import LegionForge.Connectors.Inbound
import LegionForge.Gateway.Accounts

/-!
# The token of an OIDC login

A token is verified under a key of the provider, and whatever goes wrong with that, the
provider is asked who the token belongs to. The second is meant for tokens that cannot be
verified, but a token that was and failed is taken there as well.

`token_checked_iff` says when a user that is let in with a JWT has one that verifies, and
is who its `sub` says.
-/

namespace LegionForge.Gateway

open JsonText
open LegionForge.Connectors (subscript get)

/-! ## What the backend reads -/

/-- A credential that is a JWT. -/
structure Jwt (Key : Type) where
  kid : Option String
  payload : List (String × Json)
  exp : Option Int
  /-- The signature verifies under the key, by an algorithm that is allowed. -/
  verifies : Key → Bool

def Jwt.claims {Key : Type} (token : Jwt Key) : Json := .obj token.payload

/-- A field of the backend with the time it was fetched; `null` stands for `None`. -/
structure Fetched where
  value : Json := .null
  ts : Nat := 0

/-- Nothing is there, or it is older than allowed. -/
def Fetched.stale (c : Fetched) (ttl now : Nat) : Bool :=
  match c.value with
  | .null => true
  | _ => c.ts + ttl < now

structure OidcCache where
  discovery : Fetched := {}
  jwks : Fetched := {}

structure OidcEnv (Key : Type) where
  cfg : AuthSettings
  audience : String
  jwksCacheTtl : Nat
  userinfoEndpoint : String
  /-- `jwt.get_unverified_header` and the payload; `none` where that raises. -/
  parseJwt : String → Option (Jwt Key)
  /-- `jwt.PyJWK(key_dict).key`, `none` where it raises. -/
  pyJwk : Json → Option Key
  /-- `str` of a value that is no text -/
  str : Json → String

/-- Clocks and provider during a call. -/
structure OidcWorld where
  /-- `time.monotonic()`, at each reading -/
  monotonic : Nat → Nat
  /-- The time of day. -/
  now : Int
  /-- The body of a response, at each request; `none` where that raises. -/
  fetch : Nat → String → Option Json
  /-- The body of the userinfo endpoint's response to a token, `none` if it is not 200. -/
  userinfo : String → String → Option Json

/-- `_DISCOVERY_CACHE_TTL` -/
def discoveryCacheTtl : Nat := 3600

section
variable {Key : Type} (env : OidcEnv Key) (world : OidcWorld)

namespace OidcEnv

def discoveryUrl : String :=
  String.ofList (env.cfg.oidcIssuerUrl.toList.reverse.dropWhile (· = '/')).reverse ++
    "/.well-known/openid-configuration"

/-- `_get_discovery`, at a reading of the clock -/
def getDiscovery (moment : Nat) (c : OidcCache) : Option Json × OidcCache :=
  let now := world.monotonic moment
  if c.discovery.stale discoveryCacheTtl now then
    match world.fetch moment env.discoveryUrl with
    | none => (none, c)
    | some discovery => (some discovery, { c with discovery := ⟨discovery, now⟩ })
  else (some c.discovery.value, c)

/-- `_get_jwks` -/
def getJwks (c : OidcCache) : Option Json × OidcCache :=
  let now := world.monotonic 0
  if c.jwks.stale env.jwksCacheTtl now then
    let (discovery, c) := env.getDiscovery world 1 c
    match discovery.bind (subscript "jwks_uri") with
    | some (.str jwksUri) =>
      match world.fetch 2 jwksUri with
      | none => (none, c)
      | some jwks => (some jwks, { c with jwks := ⟨jwks, now⟩ })
    | _ => (none, c)
  else (some c.jwks.value, c)

/-- What iterating over a value yields, `none` where that raises. -/
def iterate : Json → Option (List Json)
  | .arr items => some items
  | .obj members => some (members.map fun m => .str m.1)
  | .str text => some (text.toList.map fun c => .str (String.ofList [c]))
  | _ => none

/-- `jwks_data.get("keys", [])`, as it is iterated over. -/
def keysOf (jwks : Json) : Option (List Json) := (get "keys" (.arr []) jwks).bind iterate

/-- `key_dict.get("kid") == kid`, where a kid is asked for; `none` where that raises. -/
def kidMatches (kid : Option String) (key : Json) : Option Bool :=
  match kid with
  | none => some true
  | some kid => (get "kid" .null key).map fun
    | .str k => k = kid
    | _ => false

/-- The loop of `_find_signing_key`; outside, `none` where it raises. -/
def findKey (kid : Option String) : List Json → Option (Option Key)
  | [] => some none
  | key :: rest =>
    match kidMatches kid key with
    | none => none
    | some false => findKey kid rest
    | some true =>
      match env.pyJwk key with
      | some found => some (some found)
      | none => findKey kid rest

/-- `_find_signing_key` -/
def findSigningKey (credential : String) (jwks : Json) : Option (Option Key) :=
  match env.parseJwt credential with
  | none => some none
  | some token => (keysOf jwks).bind (env.findKey token.kid)

/-- The value is the text, or a list with it. -/
def namesText (text : String) : Json → Bool
  | .str s => s = text
  | .arr items => items.any fun
    | .str s => s = text
    | _ => false
  | _ => false

/-- What `jwt.decode` verifies of a token. -/
structure Verifies (key : Key) (token : Jwt Key) : Prop where
  signature : token.verifies key = true
  issuer : (subscript "iss" token.claims).any
    (fun | .str s => s = env.cfg.oidcIssuerUrl | _ => false) = true
  audience : (subscript "aud" token.claims).any
    (namesText (if env.audience = "" then env.cfg.oidcClientId else env.audience)) = true
  expiry : ∀ exp, token.exp = some exp → world.now < exp

instance (key : Key) (token : Jwt Key) : Decidable (env.Verifies world key token) :=
  have : Decidable (∀ exp, token.exp = some exp → world.now < exp) :=
    match token.exp with
    | none => isTrue fun _ h => nomatch h
    | some e => decidable_of_iff (world.now < e)
      ⟨fun h _ same => Option.some.inj same ▸ h, fun h => h e rfl⟩
  decidable_of_iff (_ ∧ _ ∧ _ ∧ _)
    ⟨fun ⟨a, b, c, d⟩ => ⟨a, b, c, d⟩, fun ⟨a, b, c, d⟩ => ⟨a, b, c, d⟩⟩

/-- `jwt.decode` -/
def decode (credential : String) (key : Key) : Option Json :=
  match env.parseJwt credential with
  | none => none
  | some token => if env.Verifies world key token then some token.claims else none

/-- The claims of the token, `none` for whatever goes wrong. -/
def jwksClaims (credential : String) (jwks : Option Json) : Option Json :=
  match jwks.bind (env.findSigningKey credential) with
  | some (some signingKey) => env.decode world credential signingKey
  | _ => none

/-- `_userinfo` -/
def userinfo (credential : String) (c : OidcCache) : Option Json × OidcCache :=
  let (discovery, c) := env.getDiscovery world 3 c
  let endpoint := discovery.bind fun discovery =>
    if env.userinfoEndpoint ≠ "" then some (.str env.userinfoEndpoint)
    else get "userinfo_endpoint" (.str "") discovery
  match endpoint with
  | some (.str endpoint) =>
    if endpoint = "" then (none, c) else (world.userinfo endpoint credential, c)
  | _ => (none, c)

/-- `claims.get(key)` as it is written out, `none` for what counts as false. -/
def field (key : String) (claims : Json) : Option String :=
  (((subscript key claims).filter Connectors.truthy).map fun
    | .str s => s
    | v => env.str v).filter (· ≠ "")

/-- The claims that are asked for; `none` where there is no `get`, which raises. -/
def tokenClaims : Json → Option TokenClaims
  | .obj members => some
    { sub := env.field "sub" (.obj members)
      id := env.field "id" (.obj members)
      preferredUsername := env.field "preferred_username" (.obj members)
      email := env.field "email" (.obj members)
      name := env.field "name" (.obj members) }
  | _ => none

/-- The claims the identity is taken from. -/
def claims (credential : String) (c : OidcCache) : Option Json × OidcCache :=
  let (jwks, c) := env.getJwks world c
  match env.jwksClaims world credential jwks with
  | some claims => (some claims, c)
  | none => env.userinfo world credential c

/-- `OIDCBackend.authenticate` -/
def authenticate (t : UserTable) (c : OidcCache) (credential scheme : String) (db : DbAnswer) :
    (Option AuthUser × UserTable) × OidcCache :=
  if scheme ≠ schemeBearer || env.cfg.oidcIssuerUrl = "" || env.cfg.oidcClientId = "" then
    ((none, t), c)
  else
    let (claims, c) := env.claims world credential c
    (oidcAuthenticate env.cfg t scheme { claims := claims.bind env.tokenClaims } db, c)

/-! ## What is to hold -/

/-- The token verifies under a key of the provider's. -/
def Genuine (c : OidcCache) (token : Jwt Key) : Prop :=
  ∃ jwks keys, (env.getJwks world c).1 = some jwks ∧ keysOf jwks = some keys ∧
    ∃ k ∈ keys, ∃ key, env.pyJwk k = some key ∧ env.Verifies world key token

/-- With a JWT nobody is let in unless it verifies, and then as who its `sub` says. -/
def TokenChecked (t : UserTable) (c : OidcCache) (credential scheme : String) (db : DbAnswer) :
    Prop :=
  ∀ token, env.parseJwt credential = some token →
    ∀ user, (env.authenticate world t c credential scheme db).1.1 = some user →
      env.Genuine world c token ∧
        ∃ sub, env.field "sub" token.claims = some sub ∧ user.userId = s!"oidc:{sub}"

/-- Who the claims say it is. -/
def subject (claims : Json) : Option String :=
  (env.tokenClaims claims).bind fun claims => claims.sub.or claims.id

/-- What keeps the check from being bypassed. -/
inductive Guarded (c : OidcCache) (credential scheme : String) (token : Jwt Key) : Prop
  | notAsked
      (off : scheme ≠ schemeBearer ∨ env.cfg.oidcIssuerUrl = "" ∨ env.cfg.oidcClientId = "")
  /-- The token verifies under the key that is found, and its `sub` is not missing, or its
  `id` is as well. -/
  | verified {claims : Json}
      (decoded : env.jwksClaims world credential (env.getJwks world c).1 = some claims)
      (sub : env.field "sub" token.claims ≠ none ∨ env.field "id" token.claims = none)
  /-- It does not, and the userinfo endpoint knows nobody by it. -/
  | unknown (refused : env.jwksClaims world credential (env.getJwks world c).1 = none)
      (nobody : (env.claims world credential c).1.bind env.subject = none)
  /-- It does not, but under another key of the provider's, and the userinfo endpoint knows
  whom it names. -/
  | agrees {sub : String}
      (refused : env.jwksClaims world credential (env.getJwks world c).1 = none)
      (genuine : env.Genuine world c token) (named : env.field "sub" token.claims = some sub)
      (known : (env.claims world credential c).1.bind env.subject = some sub)

end OidcEnv

end

namespace OidcEnv

section
variable {Key : Type} {env : OidcEnv Key} {world : OidcWorld} {t : UserTable} {c : OidcCache}
  {credential scheme : String} {db : DbAnswer} {token : Jwt Key}

/-! ## Who is let in -/

theorem field_ne_empty {key s : String} {claims : Json} (found : env.field key claims = some s) :
    s ≠ "" := by
  have := (Option.filter_eq_some_iff.mp found).2
  simpa using this

theorem tokenClaims_eq {claims : Json} {found : TokenClaims}
    (read : env.tokenClaims claims = some found) :
    found.sub = env.field "sub" claims ∧ found.id = env.field "id" claims := by
  unfold tokenClaims at read
  split at read
  · cases read
    exact ⟨rfl, rfl⟩
  · cases read

theorem orText_field (claims : Json) (key key' : String) :
    (orText (env.field key claims) (env.field key' claims)).filter (· ≠ "") =
      (env.field key claims).or (env.field key' claims) := by
  have kept : ∀ key, (env.field key claims).filter (· ≠ "") = env.field key claims := by
    intro key
    cases found : env.field key claims with
    | none => rfl
    | some s => rw [Option.filter_some, if_pos (by simpa using field_ne_empty found)]
  rw [orText, kept]
  cases first : env.field key claims with
  | none => rw [Option.none_or, kept]
  | some s => rw [Option.some_or, ← first, kept]

/-- The identity the accounts backend takes from the claims. -/
theorem oidcIdentity_userId (asked : scheme = schemeBearer) (issuer : env.cfg.oidcIssuerUrl ≠ "")
    (client : env.cfg.oidcClientId ≠ "") (claims : Option Json) :
    (oidcIdentity env.cfg scheme { claims := claims.bind env.tokenClaims }).map (·.userId) =
      (claims.bind env.subject).map fun sub => s!"oidc:{sub}" := by
  have configured : (env.cfg.oidcIssuerUrl = "" || env.cfg.oidcClientId = "") = false := by
    simp [issuer, client]
  rw [oidcIdentity, if_neg (not_not.mpr asked), configured]
  cases claims with
  | none => rfl
  | some claims =>
    simp only [Bool.false_eq_true, if_false, Option.bind_some, subject]
    cases read : env.tokenClaims claims with
    | none => rfl
    | some found =>
      obtain ⟨sub, id⟩ := tokenClaims_eq read
      rw [Option.bind_some, Option.bind_some, Option.map_map, sub, id, orText_field]
      rfl

theorem authenticate_userId (asked : scheme = schemeBearer) (issuer : env.cfg.oidcIssuerUrl ≠ "")
    (client : env.cfg.oidcClientId ≠ "") :
    (env.authenticate world t c credential scheme db).1.1.map (·.userId) =
      ((env.claims world credential c).1.bind env.subject).map fun sub => s!"oidc:{sub}" := by
  have configured : (scheme ≠ schemeBearer || env.cfg.oidcIssuerUrl = "" ||
      env.cfg.oidcClientId = "") = false := by
    simp [asked, issuer, client]
  rw [← oidcIdentity_userId asked issuer client, authenticate, configured]
  simp only [Bool.false_eq_true, if_false, oidcAuthenticate, provisionAndReturn]
  cases oidcIdentity env.cfg scheme
    { claims := (env.claims world credential c).1.bind env.tokenClaims } <;> rfl

theorem subject_of_letIn {user : AuthUser}
    (answer : (env.authenticate world t c credential scheme db).1.1 = some user) :
    (scheme = schemeBearer ∧ env.cfg.oidcIssuerUrl ≠ "" ∧ env.cfg.oidcClientId ≠ "") ∧
      ∃ sub, (env.claims world credential c).1.bind env.subject = some sub ∧
        user.userId = s!"oidc:{sub}" := by
  by_cases asked : scheme = schemeBearer ∧ env.cfg.oidcIssuerUrl ≠ "" ∧ env.cfg.oidcClientId ≠ ""
  · have userId : (env.authenticate world t c credential scheme db).1.1.map (·.userId) = _ :=
      authenticate_userId asked.1 asked.2.1 asked.2.2
    rw [answer] at userId
    obtain ⟨sub, known, same⟩ := Option.map_eq_some_iff.mp userId.symm
    exact ⟨asked, sub, known, same.symm⟩
  · have off : (scheme ≠ schemeBearer || env.cfg.oidcIssuerUrl = "" ||
        env.cfg.oidcClientId = "") = true := by
      by_contra on
      simp only [Bool.not_eq_true, Bool.or_eq_false_iff, decide_eq_false_iff_not, not_not] at on
      exact asked ⟨on.1.1, on.1.2, on.2⟩
    rw [authenticate, off] at answer
    cases answer

theorem letIn_of_subject {sub : String} (asked : scheme = schemeBearer)
    (issuer : env.cfg.oidcIssuerUrl ≠ "") (client : env.cfg.oidcClientId ≠ "")
    (known : (env.claims world credential c).1.bind env.subject = some sub) :
    ∃ user, (env.authenticate world t c credential scheme db).1.1 = some user ∧
      user.userId = s!"oidc:{sub}" := by
  have userId : (env.authenticate world t c credential scheme db).1.1.map (·.userId) = _ :=
    authenticate_userId asked issuer client
  rw [known] at userId
  exact Option.map_eq_some_iff.mp userId

theorem userId_inj {a b : String} (same : s!"oidc:{a}" = s!"oidc:{b}") : a = b := by
  have chars := congrArg String.toList same
  simp only [toString, String.toList_append, List.append_cancel_left_eq] at chars
  exact String.toList_inj.mp chars

/-! ## Keys -/

/-- The key that is found is one of the provider's. -/
theorem mem_of_findKey {kid : Option String} {keys : List Json} {key : Key}
    (found : env.findKey kid keys = some (some key)) : ∃ k ∈ keys, env.pyJwk k = some key := by
  induction keys with
  | nil => cases found
  | cons k rest ih =>
    have later : env.findKey kid rest = some (some key) →
        ∃ k' ∈ k :: rest, env.pyJwk k' = some key :=
      fun found => (ih found).imp fun _ ⟨mem, made⟩ => ⟨List.mem_cons_of_mem k mem, made⟩
    unfold findKey at found
    split at found
    · cases found
    · exact later found
    · split at found
      · next made =>
        cases found
        exact ⟨k, List.mem_cons_self, made⟩
      · exact later found

theorem genuine_of_jwksClaims {claims : Json} (parsed : env.parseJwt credential = some token)
    (decoded : env.jwksClaims world credential (env.getJwks world c).1 = some claims) :
    claims = token.claims ∧ env.Genuine world c token := by
  unfold jwksClaims at decoded
  split at decoded
  · next key found =>
    obtain ⟨jwks, fetched, found⟩ := Option.bind_eq_some_iff.mp found
    rw [findSigningKey, parsed] at found
    obtain ⟨keys, listed, found⟩ := Option.bind_eq_some_iff.mp found
    obtain ⟨k, mem, made⟩ := mem_of_findKey found
    rw [decode, parsed] at decoded
    dsimp only at decoded
    split at decoded
    · next verifies =>
      cases decoded
      exact ⟨rfl, jwks, keys, fetched, listed, k, mem, key, made, verifies⟩
    · cases decoded
  · cases decoded

theorem claims_of_jwksClaims {claims : Json}
    (decoded : env.jwksClaims world credential (env.getJwks world c).1 = some claims) :
    (env.claims world credential c).1 = some claims := by
  unfold OidcEnv.claims
  simp only [decoded]

theorem subject_token (token : Jwt Key) :
    env.subject token.claims =
      (env.field "sub" token.claims).or (env.field "id" token.claims) := rfl

end

end OidcEnv

/-- Nobody gets in with a JWT that does not verify, or as another than its `sub`, exactly where
the check cannot be gone around. -/
theorem token_checked_iff {Key : Type} (env : OidcEnv Key) (world : OidcWorld) (t : UserTable)
    (c : OidcCache) (credential scheme : String) (db : DbAnswer) :
    env.TokenChecked world t c credential scheme db ↔
      ∀ token, env.parseJwt credential = some token →
        env.Guarded world c credential scheme token := by
  constructor
  · intro checked token parsed
    by_cases off : scheme ≠ schemeBearer ∨ env.cfg.oidcIssuerUrl = "" ∨ env.cfg.oidcClientId = ""
    · exact .notAsked off
    · simp only [not_or, ne_eq, not_not] at off
      cases decoded : env.jwksClaims world credential (env.getJwks world c).1 with
      | some claims =>
        obtain ⟨rfl, genuine⟩ := OidcEnv.genuine_of_jwksClaims parsed decoded
        refine .verified decoded (or_iff_not_imp_left.mpr fun noSub => ?_)
        by_contra hasId
        obtain ⟨id, found⟩ := Option.ne_none_iff_exists'.mp hasId
        have known : (env.claims world credential c).1.bind env.subject = some id := by
          rw [OidcEnv.claims_of_jwksClaims decoded, Option.bind_some, OidcEnv.subject_token,
            not_not.mp noSub, found, Option.none_or]
        obtain ⟨user, answer, -⟩ := OidcEnv.letIn_of_subject off.1 off.2.1 off.2.2 known
        obtain ⟨-, sub, named, -⟩ := checked token parsed user answer
        exact noSub (by rw [named]; exact Option.some_ne_none sub)
      | none =>
        cases known : (env.claims world credential c).1.bind env.subject with
        | none => exact .unknown decoded known
        | some sub =>
          obtain ⟨user, answer, userId⟩ := OidcEnv.letIn_of_subject off.1 off.2.1 off.2.2 known
          obtain ⟨genuine, sub', named, userId'⟩ := checked token parsed user answer
          rw [userId] at userId'
          cases OidcEnv.userId_inj userId'
          exact .agrees decoded genuine named known
  · intro guarded token parsed user answer
    obtain ⟨⟨scheme_eq, issuer, client⟩, sub, known, userId⟩ := OidcEnv.subject_of_letIn answer
    cases guarded token parsed with
    | notAsked off => exact absurd off (by simp [scheme_eq, issuer, client])
    | verified decoded subGiven =>
      obtain ⟨rfl, genuine⟩ := OidcEnv.genuine_of_jwksClaims parsed decoded
      rw [OidcEnv.claims_of_jwksClaims decoded, Option.bind_some, OidcEnv.subject_token] at known
      refine ⟨genuine, sub, ?_, userId⟩
      cases named : env.field "sub" token.claims with
      | some s => rwa [named, Option.some_or] at known
      | none =>
        rcases subGiven with given | noId
        · exact absurd named given
        · rw [named, noId] at known
          cases known
    | unknown refused nobody =>
      rw [nobody] at known
      cases known
    | agrees refused genuine named known' =>
      rw [known'] at known
      cases known
      exact ⟨genuine, _, named, userId⟩

/-- A provider that issues tokens to several clients, and knows to whom each belongs. -/
def severalClients : OidcEnv Unit where
  cfg :=
    { oidcIssuerUrl := "idp", oidcClientId := "forge", ldapUrl := "", ldapBindDn := ""
      ldapDailyTokenLimit := 0, gssapiAvailable := false, kerberosDailyTokenLimit := 0 }
  audience := ""
  jwksCacheTtl := 300
  userinfoEndpoint := "userinfo"
  parseJwt _ := some
    { kid := none
      payload := [("iss", .str "idp"), ("aud", .str "other-app"), ("sub", .str "alice")]
      exp := none
      verifies := fun _ => true }
  pyJwk _ := some ()
  str _ := ""

def itsWorld : OidcWorld where
  monotonic _ := 0
  now := 0
  fetch moment _ := some (if moment = 2 then .obj [("keys", .arr [.obj []])]
    else .obj [("jwks_uri", .str "jwks")])
  userinfo _ _ := some (.obj [("sub", .str "alice")])

/-- A token for another client lets its owner in. -/
theorem other_audience_let_in :
    ¬ severalClients.TokenChecked itsWorld .empty {} "header.payload.signature"
      schemeBearer .ok := by
  intro checked
  have let_in : (severalClients.authenticate itsWorld .empty {} "header.payload.signature"
      schemeBearer .ok).1.1 = some ⟨"oidc:alice", "alice", 100000, none⟩ := by rfl
  obtain ⟨⟨jwks, keys, -, -, k, -, key, -, verifies⟩, -⟩ := checked _ rfl _ let_in
  exact absurd verifies.audience (by decide)

end LegionForge.Gateway
