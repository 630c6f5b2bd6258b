import LegionForge.Lib.Machine
import LegionForge.Lib.Table

/-!
# Logins and accounts

Five backends verify a credential, each in its own way, and one table holds the accounts.
The API key backend reads the accounts that are active and answers with what the row
says. The other four learn who it is from elsewhere, insert a row where there is none, and
answer with a limit from the configuration; only Kerberos reads the limit back, and none
of them looks at `is_active` or `is_admin`. What the administrators write to a row is
therefore lost on whoever logs in through them.

`accounts_agree_iff` says for every run of logins and admin requests when each answer
agrees with the row nevertheless.
-/

namespace LegionForge.Gateway

/-! ## The table -/

/-- A row of `gateway_users`. -/
structure GatewayUser where
  userId : String
  username : String
  apiKeyHash : String
  isActive : Bool := true
  dailyTokenLimit : Int
  isAdmin : Bool := false
  deriving DecidableEq, Repr

/-- The rows under both their constraints, the primary key and the unique user names. -/
structure UserTable where
  table : Table GatewayUser.userId
  usernames : (table.rows.map GatewayUser.username).Nodup

namespace UserTable

def empty : UserTable := ⟨.empty, List.nodup_nil⟩

def get (t : UserTable) (userId : String) : Option GatewayUser := t.table.get userId

/-- `INSERT`, which raises where a constraint is violated. -/
def insert (t : UserTable) (r : GatewayUser) : Option UserTable :=
  match inserted : t.table.insert r with
  | none => none
  | some table =>
    if taken : r.username ∈ t.table.rows.map GatewayUser.username then none
    else some ⟨table, by
      rw [Table.insert_rows inserted]
      exact List.nodup_cons.mpr ⟨taken, t.usernames⟩⟩

/-- `INSERT ... ON CONFLICT (user_id) DO NOTHING`, which raises where the name is taken. -/
def insertIfNew (t : UserTable) (r : GatewayUser) : Option UserTable :=
  if (t.get r.userId).isSome then some t else t.insert r

/-- `UPDATE` of the rows with the property, neither key nor name among what is set. -/
def update (t : UserTable) (f : GatewayUser → GatewayUser)
    (keys : ∀ r, (f r).userId = r.userId) (names : ∀ r, (f r).username = r.username) :
    UserTable where
  table := t.table.mapRows f keys
  usernames := by
    have same : GatewayUser.username ∘ f = GatewayUser.username := funext names
    rw [Table.mapRows, List.map_map, same]
    exact t.usernames

end UserTable

/-! ## What the outside answers -/

/-- The configuration the backends read. -/
structure AuthSettings where
  oidcIssuerUrl : String
  oidcClientId : String
  ldapUrl : String
  ldapBindDn : String
  ldapDailyTokenLimit : Int
  gssapiAvailable : Bool
  kerberosDailyTokenLimit : Int

/-- The claims of a verified token, or of the userinfo endpoint. -/
structure TokenClaims where
  sub : Option String
  id : Option String
  preferredUsername : Option String
  email : Option String
  name : Option String

structure GitHubUser where
  id : Option Int
  login : Option String

structure LdapEntry where
  dn : String
  cn : Option String
  displayName : Option String

/-- How the provider of the backend answers to a credential. -/
structure ProviderAnswer where
  /-- `bcrypt.checkpw` of the credential against a hash; `False` where it raises. -/
  checkpw : String → Bool := fun _ => false
  /-- The claims of an OIDC token, `none` if neither check accepts it. -/
  claims : Option TokenClaims := none
  /-- The body of `/user`, `none` if the call fails. -/
  githubUser : Option GitHubUser := none
  /-- The entry that was found and could be bound to, by user name and password. -/
  ldapEntry : String → String → Option LdapEntry := fun _ _ => none
  /-- The initiator of the accepted security context. -/
  principal : Option String := none

/-- How the database answers to a provisioning: it may raise, before or after the insert. -/
inductive DbAnswer where
  | ok
  | raises (stored : Bool)
  deriving DecidableEq

/-! ## The backends -/

def schemeBearer : String := "bearer"
def schemeBasic : String := "basic"
def schemeNegotiate : String := "negotiate"

/-- What a backend answers with; `is_admin` may be missing. -/
structure AuthUser where
  userId : String
  username : String
  dailyTokenLimit : Int
  isAdmin : Option Bool
  deriving DecidableEq, Repr

/-- Who a provider says it is. -/
structure Identity where
  userId : String
  username : String

/-- `a or b`: an empty text counts as none. -/
def orText (a b : Option String) : Option String := (a.filter (· ≠ "")).or b

def noKey : String := "[OAUTH-NO-KEY]"

def defaultDailyLimit : Int := 100000

/-- The row `_provision_user` inserts. -/
def Identity.row (i : Identity) (dailyLimit : Int) : GatewayUser where
  userId := i.userId
  username := i.username
  apiKeyHash := noKey
  dailyTokenLimit := dailyLimit

/-- The insert of `_provision_user`; `none` if it raises. -/
def UserTable.provision (t : UserTable) (r : GatewayUser) : DbAnswer → UserTable × Bool
  | .ok => match t.insertIfNew r with
    | some t' => (t', true)
    | none => (t, false)
  | .raises stored => (if stored then (t.insertIfNew r).getD t else t, false)

section
variable (cfg : AuthSettings) (t : UserTable) (credential scheme : String)
  (answer : ProviderAnswer) (db : DbAnswer)

/-- `get_gateway_user_for_auth` -/
def UserTable.activeUsers : List GatewayUser := t.table.rows.filter (·.isActive)

/-- `ApiKeyBackend.authenticate` -/
def apiKeyAuthenticate : Option AuthUser :=
  if scheme ≠ schemeBearer then none
  else (t.activeUsers.find? fun row =>
      row.apiKeyHash ≠ noKey && answer.checkpw row.apiKeyHash).map fun row =>
    ⟨row.userId, row.username, row.dailyTokenLimit, some row.isAdmin⟩

/-- What three backends do once they know who it is: insert, whatever comes of it, and
answer with the limit of the configuration. -/
def provisionAndReturn (identity : Option Identity) (dailyLimit : Int) :
    Option AuthUser × UserTable :=
  match identity with
  | none => (none, t)
  | some i => (some ⟨i.userId, i.username, dailyLimit, none⟩,
      (t.provision (i.row dailyLimit) db).1)

def oidcIdentity : Option Identity :=
  if scheme ≠ schemeBearer then none
  else if cfg.oidcIssuerUrl = "" || cfg.oidcClientId = "" then none
  else answer.claims.bind fun claims =>
    ((orText claims.sub claims.id).filter (· ≠ "")).map fun sub =>
      { userId := s!"oidc:{sub}"
        username := (orText (orText (orText claims.preferredUsername claims.email)
          claims.name) (some sub)).getD "" }

/-- `OIDCBackend.authenticate` -/
def oidcAuthenticate : Option AuthUser × UserTable :=
  provisionAndReturn t db (oidcIdentity cfg scheme answer) defaultDailyLimit

def githubIdentity : Option Identity :=
  if scheme ≠ schemeBearer then none
  else answer.githubUser.bind fun user =>
    match user.id.filter (· ≠ 0), user.login.filter (· ≠ "") with
    | some id, some login => some { userId := s!"github:{id}", username := login }
    | _, _ => none

/-- `GitHubOAuthBackend.authenticate` -/
def githubAuthenticate : Option AuthUser × UserTable :=
  provisionAndReturn t db (githubIdentity scheme answer) defaultDailyLimit

/-- `credential.split(":", 1)`, where there is a colon. -/
def splitColon (credential : String) : Option (String × String) :=
  let chars := credential.toList
  if chars.contains ':' then
    some (String.ofList (chars.takeWhile (· ≠ ':')),
      String.ofList ((chars.dropWhile (· ≠ ':')).drop 1))
  else none

def ldapIdentity : Option Identity :=
  if scheme ≠ schemeBasic then none
  else if cfg.ldapUrl = "" || cfg.ldapBindDn = "" then none
  else (splitColon credential).bind fun (username, password) =>
    if username = "" || password = "" then none
    else (answer.ldapEntry username password).map fun entry =>
      { userId := s!"ldap:{entry.dn}"
        username := (entry.cn.or entry.displayName).getD username }

/-- `LDAPBackend.authenticate` -/
def ldapAuthenticate : Option AuthUser × UserTable :=
  provisionAndReturn t db (ldapIdentity cfg credential scheme answer) cfg.ldapDailyTokenLimit

/-- `principal.split("@")[0]` -/
def stripRealm (principal : String) : String :=
  String.ofList (principal.toList.takeWhile (· ≠ '@'))

def kerberosIdentity : Option Identity :=
  if scheme ≠ schemeNegotiate then none
  else if !cfg.gssapiAvailable then none
  else (answer.principal.filter (· ≠ "")).map fun principal =>
    { userId := s!"kerberos:{principal}", username := stripRealm principal }

/-- `KerberosBackend.authenticate`; where nothing raises, the limit is read back. -/
def kerberosAuthenticate : Option AuthUser × UserTable :=
  match kerberosIdentity cfg scheme answer with
  | none => (none, t)
  | some i =>
    let dailyLimit := cfg.kerberosDailyTokenLimit
    let (t', stored) := t.provision (i.row dailyLimit) db
    let actualLimit :=
      if stored then ((t'.get i.userId).map (·.dailyTokenLimit)).getD dailyLimit else dailyLimit
    (some ⟨i.userId, i.username, actualLimit, none⟩, t')

/-- `settings.gateway.auth_provider` -/
inductive Provider where
  | apiKey
  | oidc
  | github
  | ldap
  | kerberos
  deriving DecidableEq

/-- `authenticate`, with the table it leaves. -/
def authenticate : Provider → Option AuthUser × UserTable
  | .apiKey => (apiKeyAuthenticate t scheme answer, t)
  | .oidc => oidcAuthenticate cfg t scheme answer db
  | .github => githubAuthenticate t scheme answer db
  | .ldap => ldapAuthenticate cfg t credential scheme answer db
  | .kerberos => kerberosAuthenticate cfg t scheme answer db

end

/-! ## Runs of logins and admin requests -/

/-- A request; `admin` is the name of the administrator who makes it. -/
inductive AccountAction where
  | login (provider : Provider) (cfg : AuthSettings) (credential scheme : String)
      (answer : ProviderAnswer) (db : DbAnswer)
  | createUser (userId username apiKeyHash : String) (isAdmin : Bool)
  | deactivateUser (admin username : String)
  | setUserQuota (username : String) (dailyTokenLimit : Int)
  | setUserAdmin (admin username : String) (isAdmin : Bool)
  | rotateApiKey (userId newKeyHash : String)

/-- `deactivate_gateway_user` -/
def UserTable.deactivate (t : UserTable) (username : String) : UserTable :=
  t.update (fun r => if r.username = username && r.isActive then { r with isActive := false }
    else r) (fun r => by split <;> rfl) (fun r => by split <;> rfl)

/-- `set_gateway_user_quota` -/
def UserTable.setQuota (t : UserTable) (username : String) (dailyTokenLimit : Int) : UserTable :=
  t.update (fun r => if r.username = username && r.isActive then { r with dailyTokenLimit }
    else r) (fun r => by split <;> rfl) (fun r => by split <;> rfl)

/-- `promote_gateway_user_to_admin` -/
def UserTable.setAdmin (t : UserTable) (username : String) (isAdmin : Bool) : UserTable :=
  t.update (fun r => if r.username = username then { r with isAdmin } else r)
    (fun r => by split <;> rfl) (fun r => by split <;> rfl)

/-- `rotate_api_key` -/
def UserTable.rotateKey (t : UserTable) (userId newKeyHash : String) : UserTable :=
  t.update (fun r => if r.userId = userId then { r with apiKeyHash := newKeyHash } else r)
    (fun r => by split <;> rfl) (fun r => by split <;> rfl)

def UserTable.step (t : UserTable) : AccountAction → UserTable × Option AuthUser
  | .login provider cfg credential scheme answer db =>
    let (user, t') := authenticate cfg t credential scheme answer db provider
    (t', user)
  | .createUser userId username apiKeyHash isAdmin =>
    -- another limit than the default is set by a request of its own
    ((t.insert { userId, username, apiKeyHash, dailyTokenLimit := defaultDailyLimit, isAdmin }).getD
      t, none)
  | .deactivateUser admin username =>
    (if username = admin then t else t.deactivate username, none)
  | .setUserQuota username dailyTokenLimit =>
    (if 0 ≤ dailyTokenLimit && dailyTokenLimit ≤ 10000000 then
      t.setQuota username dailyTokenLimit else t, none)
  | .setUserAdmin admin username isAdmin =>
    (if username = admin && !isAdmin then t else t.setAdmin username isAdmin, none)
  | .rotateApiKey userId newKeyHash => (t.rotateKey userId newKeyHash, none)

def accounts : Machine UserTable AccountAction (Option AuthUser) where
  step t a := some (t.step a)

abbrev AccountStep := Machine.Entry UserTable AccountAction (Option AuthUser)

/-! ## What is to hold -/

/-- A user that was let in has a row, it is active, and limit and admin flag are the row's;
a missing flag counts as none. -/
def AccountStep.Agrees (x : AccountStep) : Prop :=
  ∀ u, x.label = some u → ∃ row, x.after.get u.userId = some row ∧ row.isActive = true ∧
    u.dailyTokenLimit = row.dailyTokenLimit ∧ u.isAdmin.getD false = row.isAdmin

/-- Who a backend other than the API keys lets in. -/
def identityOf (cfg : AuthSettings) (credential scheme : String) (answer : ProviderAnswer) :
    Provider → Option Identity
  | .apiKey => none
  | .oidc => oidcIdentity cfg scheme answer
  | .github => githubIdentity scheme answer
  | .ldap => ldapIdentity cfg credential scheme answer
  | .kerberos => kerberosIdentity cfg scheme answer

/-- The limit the backend has of its own. -/
def dailyLimitOf (cfg : AuthSettings) : Provider → Int
  | .ldap => cfg.ldapDailyTokenLimit
  | .kerberos => cfg.kerberosDailyTokenLimit
  | _ => defaultDailyLimit

/-- The row of whoever is let in is as the backend would have inserted it, but for a limit
that Kerberos reads back; or there is none, and it is inserted now. -/
def AsProvisioned (t : UserTable) : AccountAction → Prop
  | .login provider cfg credential scheme answer db =>
    ∀ i, identityOf cfg credential scheme answer provider = some i →
      match t.get i.userId with
      | some row => row.isActive = true ∧ row.isAdmin = false ∧
          (row.dailyTokenLimit = dailyLimitOf cfg provider ∨ (provider = .kerberos ∧ db = .ok))
      | none => i.username ∉ t.table.rows.map GatewayUser.username ∧ db ≠ .raises false
  | _ => True

section
variable {t : UserTable} {r : GatewayUser} {db : DbAnswer}

/-! ## Provisioning -/

theorem insertIfNew_of_present {row : GatewayUser} (present : t.get r.userId = some row) :
    t.insertIfNew r = some t := by
  rw [UserTable.insertIfNew, present]
  rfl

theorem insertIfNew_of_taken (absent : t.get r.userId = none)
    (taken : r.username ∈ t.table.rows.map GatewayUser.username) : t.insertIfNew r = none := by
  rw [UserTable.insertIfNew, absent, UserTable.insert]
  simp only [Option.isSome_none, Bool.false_eq_true, if_false]
  split
  · rfl
  · exact dif_pos taken

theorem insertIfNew_of_free (absent : t.get r.userId = none)
    (free : r.username ∉ t.table.rows.map GatewayUser.username) :
    ∃ t', t.insertIfNew r = some t' ∧ t'.get r.userId = some r := by
  obtain ⟨table, inserted⟩ := Table.exists_insert absent
  rw [UserTable.insertIfNew, absent, UserTable.insert]
  simp only [Option.isSome_none, Bool.false_eq_true, if_false]
  split
  · next refused =>
    rw [inserted] at refused
    cases refused
  · next table' inserted' =>
    rw [dif_neg free]
    exact ⟨_, rfl, Table.get_insert_self inserted'⟩

/-- A row that is there is left alone. -/
theorem provision_of_present {row : GatewayUser} (present : t.get r.userId = some row) :
    t.provision r db = (t, decide (db = .ok)) := by
  unfold UserTable.provision
  rw [insertIfNew_of_present present]
  cases db with
  | ok => rfl
  | raises stored => cases stored <;> rfl

/-- A new row is there afterwards if its name is free and the insert took place. -/
theorem provision_get_of_absent (absent : t.get r.userId = none) :
    (t.provision r db).1.get r.userId =
      if r.username ∉ t.table.rows.map GatewayUser.username ∧ db ≠ .raises false then some r
      else none := by
  unfold UserTable.provision
  by_cases taken : r.username ∈ t.table.rows.map GatewayUser.username
  · rw [insertIfNew_of_taken absent taken, if_neg fun h => h.1 taken]
    cases db with
    | ok => exact absent
    | raises stored => cases stored <;> exact absent
  · obtain ⟨t', inserted, found⟩ := insertIfNew_of_free absent taken
    rw [inserted]
    cases db with
    | ok =>
      rw [if_pos ⟨taken, nofun⟩]
      exact found
    | raises stored =>
      cases stored with
      | true =>
        rw [if_pos ⟨taken, by simp⟩]
        exact found
      | false =>
        rw [if_neg fun h => h.2 rfl]
        exact absent

/-- The row there is after a provision that met none is the one it inserted. -/
theorem provision_exists_iff (absent : t.get r.userId = none) {P : GatewayUser → Prop} :
    (∃ row, (t.provision r db).1.get r.userId = some row ∧ P row) ↔
      (r.username ∉ t.table.rows.map GatewayUser.username ∧ db ≠ .raises false) ∧ P r := by
  rw [provision_get_of_absent absent]
  split
  · next stored => simp only [Option.some.injEq, exists_eq_left', stored, ne_eq,
      not_false_eq_true, and_self, true_and]
  · next refused => simp only [reduceCtorEq, false_and, exists_false, refused]

/-! ## Each backend -/

/-- The API key backend answers with what an active row says. -/
theorem apiKey_agrees {scheme : String} {answer : ProviderAnswer} {u : AuthUser}
    (h : apiKeyAuthenticate t scheme answer = some u) :
    ∃ row, t.get u.userId = some row ∧ row.isActive = true ∧
      u.dailyTokenLimit = row.dailyTokenLimit ∧ u.isAdmin.getD false = row.isAdmin := by
  unfold apiKeyAuthenticate at h
  split at h
  · cases h
  · obtain ⟨row, found, rfl⟩ := Option.map_eq_some_iff.mp h
    obtain ⟨mem, active⟩ := List.mem_filter.mp (List.mem_of_find?_eq_some found)
    exact ⟨row, Table.get_of_mem mem, active, rfl, rfl⟩

/-- A user who is let in with a limit and without a flag agrees with the row there is
afterwards exactly when it is active, has that limit and no flag. -/
theorem agrees_iff_of_row {t' : UserTable} {userId username : String} {limit : Int} :
    (∀ u, some (AuthUser.mk userId username limit none) = some u →
        ∃ row, t'.get u.userId = some row ∧ row.isActive = true ∧
          u.dailyTokenLimit = row.dailyTokenLimit ∧ u.isAdmin.getD false = row.isAdmin) ↔
      ∃ row, t'.get userId = some row ∧ row.isActive = true ∧
        limit = row.dailyTokenLimit ∧ row.isAdmin = false := by
  refine ⟨fun all => ?_, ?_⟩
  · obtain ⟨row, found, active, limit, flag⟩ := all _ rfl
    exact ⟨row, found, active, limit, flag.symm⟩
  · rintro ⟨row, found, active, limit, flag⟩ u same
    cases same
    exact ⟨row, found, active, limit, flag.symm⟩

theorem agrees_with_row_iff {row : GatewayUser} {limit : Int} :
    (∃ row', some row = some row' ∧ row'.isActive = true ∧ limit = row'.dailyTokenLimit ∧
        row'.isAdmin = false) ↔
      row.isActive = true ∧ row.isAdmin = false ∧ row.dailyTokenLimit = limit := by
  refine ⟨?_, ?_⟩
  · rintro ⟨row', same, active, limit, flag⟩
    cases same
    exact ⟨active, flag, limit.symm⟩
  · rintro ⟨active, flag, limit⟩
    exact ⟨row, rfl, active, limit.symm, flag⟩

/-- The three backends that answer with the configured limit. -/
theorem provisioned_agrees_iff (identity : Option Identity) (dailyLimit : Int) :
    (∀ u, (provisionAndReturn t db identity dailyLimit).1 = some u →
        ∃ row, (provisionAndReturn t db identity dailyLimit).2.get u.userId = some row ∧
          row.isActive = true ∧ u.dailyTokenLimit = row.dailyTokenLimit ∧
          u.isAdmin.getD false = row.isAdmin) ↔
      ∀ i, identity = some i →
        match t.get i.userId with
        | some row => row.isActive = true ∧ row.isAdmin = false ∧
            row.dailyTokenLimit = dailyLimit
        | none => i.username ∉ t.table.rows.map GatewayUser.username ∧ db ≠ .raises false := by
  cases identity with
  | none => exact ⟨fun _ => nofun, fun _ => nofun⟩
  | some i =>
    rw [provisionAndReturn, agrees_iff_of_row]
    simp only [Option.some.injEq, forall_eq']
    cases found : t.get i.userId with
    | some row =>
      have kept := @provision_of_present t (i.row dailyLimit) db row found
      rw [kept]
      dsimp only
      rw [found]
      exact agrees_with_row_iff
    | none =>
      have after := @provision_exists_iff t (i.row dailyLimit) db found
      exact after.trans (and_iff_left ⟨rfl, rfl, rfl⟩)

/-- Kerberos answers with the limit of the row, where nothing raises. -/
theorem kerberos_agrees_iff (cfg : AuthSettings) (scheme : String) (answer : ProviderAnswer) :
    (∀ u, (kerberosAuthenticate cfg t scheme answer db).1 = some u →
        ∃ row, (kerberosAuthenticate cfg t scheme answer db).2.get u.userId = some row ∧
          row.isActive = true ∧ u.dailyTokenLimit = row.dailyTokenLimit ∧
          u.isAdmin.getD false = row.isAdmin) ↔
      ∀ i, kerberosIdentity cfg scheme answer = some i →
        match t.get i.userId with
        | some row => row.isActive = true ∧ row.isAdmin = false ∧
            (row.dailyTokenLimit = cfg.kerberosDailyTokenLimit ∨ db = .ok)
        | none => i.username ∉ t.table.rows.map GatewayUser.username ∧ db ≠ .raises false := by
  unfold kerberosAuthenticate
  cases kerberosIdentity cfg scheme answer with
  | none => exact ⟨fun _ => nofun, fun _ => nofun⟩
  | some i =>
    dsimp only
    rw [agrees_iff_of_row]
    simp only [Option.some.injEq, forall_eq']
    cases found : t.get i.userId with
    | some row =>
      have kept := @provision_of_present t (i.row cfg.kerberosDailyTokenLimit) db row found
      rw [kept]
      dsimp only
      rw [found]
      by_cases ok : db = .ok
      · simp [ok]
      · simp only [ok, decide_false, Bool.false_eq_true, if_false, or_false]
        exact agrees_with_row_iff
    | none =>
      have after := @provision_exists_iff t (i.row cfg.kerberosDailyTokenLimit) db found
      refine after.trans (and_iff_left_of_imp fun stored => ⟨rfl, ?_, rfl⟩)
      -- the row that is read back is the one inserted
      have there : (t.provision (i.row cfg.kerberosDailyTokenLimit) db).1.get i.userId =
          some (i.row cfg.kerberosDailyTokenLimit) :=
        (provision_get_of_absent found).trans (if_pos stored)
      rw [there]
      exact ite_self _

end

/-! ## Every run -/

/-- One request agrees with the table exactly when nobody it lets in has another row than
the backend would have inserted. -/
theorem agrees_iff {x : AccountStep} (step : accounts.Steps x) :
    x.Agrees ↔ AsProvisioned x.before x.input := by
  obtain ⟨t, action, label, t'⟩ := x
  obtain ⟨rfl, rfl⟩ : (t.step action).1 = t' ∧ (t.step action).2 = label := by
    have same := Option.some.inj step
    exact ⟨congrArg Prod.fst same, congrArg Prod.snd same⟩
  cases action with
  | login provider cfg credential scheme answer db =>
    cases provider with
    | apiKey => exact ⟨fun _ => nofun, fun _ u let_in => apiKey_agrees let_in⟩
    | oidc =>
      refine (provisioned_agrees_iff (oidcIdentity cfg scheme answer) defaultDailyLimit).trans ?_
      simp [AsProvisioned, identityOf, dailyLimitOf]
    | github =>
      refine (provisioned_agrees_iff (githubIdentity scheme answer) defaultDailyLimit).trans ?_
      simp [AsProvisioned, identityOf, dailyLimitOf]
    | ldap =>
      refine (provisioned_agrees_iff (ldapIdentity cfg credential scheme answer)
        cfg.ldapDailyTokenLimit).trans ?_
      simp [AsProvisioned, identityOf, dailyLimitOf]
    | kerberos =>
      refine (kerberos_agrees_iff cfg scheme answer).trans ?_
      simp [AsProvisioned, identityOf, dailyLimitOf]
  | createUser | deactivateUser | setUserQuota | setUserAdmin | rotateApiKey =>
    exact ⟨fun _ => trivial, fun _ => nofun⟩

/-- In every run of logins and admin requests, whoever is let in is active and has the
limit and the flag of the row, exactly when each row met by one of the four backends is as
that backend would have inserted it. -/
theorem accounts_agree_iff (t : UserTable) (actions : List AccountAction) :
    (∀ x ∈ accounts.run t actions, AccountStep.Agrees x) ↔
      ∀ x ∈ accounts.run t actions, AsProvisioned x.before x.input := by
  have steps : ∀ x ∈ accounts.run t actions, accounts.Steps x ∧ True ∧ True :=
    Machine.run_invariant (I := fun _ => True) (fun _ _ _ => trivial) trivial
  exact forall₂_congr fun x hx => agrees_iff (steps x hx).1

/-! ## A deactivated user -/

def companyAuth : AuthSettings where
  oidcIssuerUrl := "https://login.example"
  oidcClientId := "legionforge"
  ldapUrl := ""
  ldapBindDn := ""
  ldapDailyTokenLimit := 100000
  gssapiAvailable := false
  kerberosDailyTokenLimit := 100000

def maryClaims : TokenClaims where
  sub := some "42"
  id := none
  preferredUsername := some "mary"
  email := none
  name := none

def maryLogin : AccountAction :=
  .login .oidc companyAuth "token" schemeBearer { claims := some maryClaims } .ok

/-- The table once she has logged in and was deactivated. -/
def maryDeactivated : UserTable := ((UserTable.empty.step maryLogin).1.step
  (.deactivateUser "root" "mary")).1

/-- She logs in, is deactivated by the administrator, logs in again and is let in. -/
theorem deactivated_let_in : ¬ ∀ x ∈ accounts.run .empty
    [maryLogin, .deactivateUser "root" "mary", maryLogin], AccountStep.Agrees x := by
  intro all
  obtain ⟨-, all⟩ := Machine.of_forall_run_cons all rfl
  obtain ⟨-, all⟩ := Machine.of_forall_run_cons all rfl
  obtain ⟨again, -⟩ := Machine.of_forall_run_cons all rfl
  have let_in : (maryDeactivated.step maryLogin).2 =
      some ⟨"oidc:42", "mary", defaultDailyLimit, none⟩ := by decide +kernel
  have inactive : ((maryDeactivated.step maryLogin).1.get "oidc:42").map (·.isActive) =
      some false := by decide +kernel
  obtain ⟨row, found, active, -⟩ := again _ let_in
  rw [show (maryDeactivated.step maryLogin).1.get "oidc:42" = some row from found,
    Option.map_some, active] at inactive
  cases inactive

end LegionForge.Gateway
