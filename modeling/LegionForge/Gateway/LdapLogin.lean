import LegionForge.Gateway.Accounts
import LegionForge.Lib.LdapTemplate

/-!
# The search of an LDAP login

The name that comes with a login is put into the configured filter as it is, the directory
is searched with that, and the first entry found is the one the password is checked
against. `checks_named_iff` says for which names this entry is the one the filter is meant
to find.
-/

namespace LegionForge.Gateway

open LdapFilter

/-- `str.format(username=...)`: how it reads the template, `none` if that raises. A field with
a conversion or a format is not read here. -/
def readFormat : Nat → List Char → Option (List Piece)
  | _, [] => some []
  | 0, _ => none
  | fuel + 1, c :: rest =>
    if "\x7b\x7b".toList.isPrefixOf (c :: rest) || "\x7d\x7d".toList.isPrefixOf (c :: rest) then
      (readFormat fuel (rest.drop 1)).map (.char c :: ·)
    else if "\x7busername\x7d".toList.isPrefixOf (c :: rest) then
      (readFormat fuel (rest.drop "username\x7d".length)).map (.hole :: ·)
    else if c = '{' || c = '}' then none
    else (readFormat fuel rest).map (.char c :: ·)

/-- `user_search_filter`: a filter that compares something with the user name. -/
structure UserSearchFilter where
  text : String
  pieces : List Piece
  filter : LdapFilter.Filter (List Octet)
  read : readFormat text.length text.toList = some pieces
  parsed : parse pieces = some filter
  holed : .hole ∈ pieces

/-- The filter with the user name as it is. -/
def UserSearchFilter.meant (template : UserSearchFilter) (username : String) :
    LdapFilter.Filter (List Octet) :=
  template.filter.map (fillOctets username.toList)

/-- The server, and what is to be known of its directory. -/
structure LdapDirectory where
  /-- The bind of the service account, which raises where it fails. -/
  serviceBinds : String → String → Bool
  /-- The entries below the search base, in the order they are returned in. -/
  entries : List LdapEntry
  /-- What an item says of an entry, by the matching rules of the attribute. -/
  assess : LdapEntry → LdapFilter.Item (List Octet) → Option Bool
  /-- `user_conn.bind()`; raising is as good as `False`. -/
  binds : String → String → Bool

/-- The entry satisfies the filter. -/
def LdapDirectory.Satisfies (dir : LdapDirectory) (f : LdapFilter.Filter (List Octet))
    (e : LdapEntry) : Prop :=
  f.eval (dir.assess e) = some true

instance (dir : LdapDirectory) (f : LdapFilter.Filter (List Octet)) (e : LdapEntry) :
    Decidable (dir.Satisfies f e) :=
  inferInstanceAs (Decidable (_ = _))

/-- `conn.search`: the entries that satisfy the filter, which raises if it is none. -/
def LdapDirectory.search (dir : LdapDirectory) (searchFilter : String) :
    Option (List LdapEntry) :=
  (parse (chars searchFilter.toList)).map fun f => dir.entries.filter (dir.Satisfies f)

/-- What the backend reads beside `AuthSettings`. -/
structure LdapEnv where
  cfg : AuthSettings
  userSearchFilter : UserSearchFilter
  /-- `_load_bind_password` -/
  bindPassword : Option String
  dir : LdapDirectory

namespace LdapEnv

section
variable (env : LdapEnv)

/-- `cfg.user_search_filter.format(username=username)` -/
def searchFilter (username : String) : Option String :=
  (readFormat env.userSearchFilter.text.length env.userSearchFilter.text.toList).map fun pieces =>
    String.ofList ((fill username.toList pieces).filterMap Piece.char?)

/-- The entry that is found, if the password opens it. -/
def ldapEntry (username password : String) : Option LdapEntry := do
  let bindPassword ← env.bindPassword
  if !env.dir.serviceBinds env.cfg.ldapBindDn bindPassword then none
  else
    let searchFilter ← env.searchFilter username
    let entries ← env.dir.search searchFilter
    let entry ← entries.head?
    if env.dir.binds entry.dn password then some entry else none

/-- `LDAPBackend.authenticate` -/
def authenticate (t : UserTable) (credential scheme : String) (db : DbAnswer) :
    Option AuthUser × UserTable :=
  ldapAuthenticate env.cfg t credential scheme { ldapEntry := env.ldapEntry } db

/-- The filter sent has the user name as it is, and whoever is let in is an entry that it
finds so. -/
structure ChecksNamed (username : String) : Prop where
  literal : ∃ text, env.searchFilter username = some text ∧
    parse (chars text.toList) = some (env.userSearchFilter.meant username)
  named : ∀ t credential password scheme db user,
    splitColon credential = some (username, password) →
    (env.authenticate t credential scheme db).1 = some user →
    ∃ e ∈ env.dir.entries, user.userId = s!"ldap:{e.dn}" ∧ env.dir.binds e.dn password = true ∧
      env.dir.Satisfies (env.userSearchFilter.meant username) e

end

section
variable {env : LdapEnv} {username : String}

theorem all_chars_fill (u : List Char) (pieces : List Piece) :
    (fill u pieces).all (·.char?.isSome) = true := by
  induction pieces with
  | nil => rfl
  | cons p pieces ih =>
    cases p with
    | char c => exact ih
    | hole =>
      rw [fill_hole, List.all_append, ih]
      simp [chars, Piece.char?]

theorem searchFilter_eq (env : LdapEnv) (username : String) :
    ∃ text, env.searchFilter username = some text ∧
    chars text.toList = fill username.toList env.userSearchFilter.pieces := by
  refine ⟨_, by rw [searchFilter, env.userSearchFilter.read, Option.map_some], ?_⟩
  rw [String.toList_ofList, chars_filterMap (all_chars_fill _ _)]

/-- The filter sent is the one that is meant. -/
theorem literal_iff : (∃ text, env.searchFilter username = some text ∧
      parse (chars text.toList) = some (env.userSearchFilter.meant username)) ↔
    ∀ c ∈ username.toList, normal c = true := by
  rw [← parse_fill_iff env.userSearchFilter.parsed env.userSearchFilter.holed]
  obtain ⟨text, sent, same⟩ := searchFilter_eq env username
  constructor
  · rintro ⟨text', sent', parsed⟩
    rw [sent] at sent'
    cases sent'
    rwa [same] at parsed
  · intro parsed
    exact ⟨text, sent, by rwa [same]⟩

/-- Whoever is let in is the first entry that the filter finds. -/
theorem found_of_ldapEntry {password : String} {e : LdapEntry}
    (found : env.ldapEntry username password = some e) :
    ∃ text f, env.searchFilter username = some text ∧ parse (chars text.toList) = some f ∧
      e ∈ env.dir.entries ∧ env.dir.binds e.dn password = true ∧ env.dir.Satisfies f e := by
  simp only [ldapEntry, Option.bind_eq_bind, Option.bind_eq_some_iff] at found
  obtain ⟨_, -, found⟩ := found
  split at found
  · cases found
  · simp only [Option.bind_eq_some_iff] at found
    obtain ⟨text, sent, entries, searched, entry, first, found⟩ := found
    split at found
    · next opens =>
      cases found
      obtain ⟨f, parsed, rfl⟩ := Option.map_eq_some_iff.mp searched
      have mem := List.mem_filter.mp (List.mem_of_head? first)
      exact ⟨text, f, sent, parsed, mem.1, opens, of_decide_eq_true mem.2⟩
    · cases found

theorem entry_of_authenticate {t : UserTable} {credential password scheme : String}
    {db : DbAnswer} {user : AuthUser} (split : splitColon credential = some (username, password))
    (answer : (env.authenticate t credential scheme db).1 = some user) :
    ∃ e, env.ldapEntry username password = some e ∧ user.userId = s!"ldap:{e.dn}" := by
  unfold authenticate ldapAuthenticate provisionAndReturn at answer
  split at answer
  · cases answer
  · next i identity =>
    cases answer
    unfold ldapIdentity at identity
    split at identity
    · cases identity
    · split at identity
      · cases identity
      · rw [split, Option.bind_some] at identity
        dsimp only at identity
        split at identity
        · cases identity
        · obtain ⟨e, found, rfl⟩ := Option.map_eq_some_iff.mp identity
          exact ⟨e, found, rfl⟩

end

end LdapEnv

/-- The entry that is checked is the one the user name names exactly where the user name has
none of the characters that mean something in a filter. -/
theorem checks_named_iff (env : LdapEnv) (username : String) :
    env.ChecksNamed username ↔ ∀ c ∈ username.toList, normal c = true := by
  constructor
  · intro checks
    exact LdapEnv.literal_iff.mp checks.literal
  · intro plain
    obtain ⟨text, sent, parsed⟩ := LdapEnv.literal_iff.mpr plain
    refine ⟨⟨text, sent, parsed⟩, fun t credential password scheme db user split answer => ?_⟩
    obtain ⟨e, found, userId⟩ := LdapEnv.entry_of_authenticate split answer
    obtain ⟨text', f, sent', parsed', mem, opens, satisfies⟩ := LdapEnv.found_of_ldapEntry found
    rw [sent] at sent'
    cases sent'
    rw [parsed] at parsed'
    cases parsed'
    exact ⟨e, mem, userId, opens, satisfies⟩

/-- The default of `user_search_filter`. -/
def uidFilter : UserSearchFilter where
  text := "(uid=\x7busername\x7d)"
  pieces := chars "(uid=".toList ++ [.hole, .char ')']
  filter := .item { left := "uid".toList, type := .equal, parts := [[.hole]] }
  read := by decide
  parsed := by rfl
  holed := by decide

/-- A directory with one account, and an asterisk for a user name. -/
def oneAccount : LdapEnv where
  cfg :=
    { oidcIssuerUrl := "", oidcClientId := "", ldapUrl := "ldap://localhost"
      ldapBindDn := "cn=svc", ldapDailyTokenLimit := 100000, gssapiAvailable := false
      kerberosDailyTokenLimit := 100000 }
  userSearchFilter := uidFilter
  bindPassword := some "secret"
  dir :=
    { serviceBinds := fun _ _ => true
      entries := [⟨"uid=alice", some "Alice", none⟩]
      assess := fun _ i => some (i.parts.length = 2)
      binds := fun _ password => password = "alice-password" }

/-- Whoever knows the password of some account is let in as that. -/
theorem asterisk_finds_alice : ¬ oneAccount.ChecksNamed "*" ∧
    (oneAccount.authenticate .empty "*:alice-password" "basic" .ok).1 =
      some ⟨"ldap:uid=alice", "Alice", 100000, none⟩ := by
  constructor
  · intro checks
    have plain := LdapEnv.literal_iff.mp checks.literal
    exact absurd (plain '*' (by decide)) (by decide)
  · rfl

end LegionForge.Gateway
