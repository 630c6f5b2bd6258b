import LegionForge.Lib.Machine
import Mathlib.Algebra.Group.Nat.Defs

/-!
# Task tokens

A task token is a JWT signed with the one signing secret. Here a token is the
claims it was encoded from together with that secret, or a text that nobody
signed: decoding returns exactly the encoded claims and rejects the rest.

Instants are whole microseconds since the epoch, as `datetime.now` gives them,
and every call brings the clock readings it makes; readings within one call do
not decrease. `exp` and `iat` are whole seconds, which is where a lifetime
computed at one reading and added to a later one can end behind the parent's.
-/

namespace LegionForge.Security

/-! ## Claims and tokens -/

/-- The claims of a task token. A list that was given as `None` is `none`. -/
structure Payload where
  jti : String
  sub : String
  iss : String
  iat : Nat
  exp : Nat
  runId : String
  grantedTools : Option (List String)
  grantedTables : List String
  grantedDataClasses : List String
  parentTokenId : Option String
  escalationPolicy : String
  deriving DecidableEq, Repr

inductive Jwt where
  | signed (payload : Payload) (secret : String)
  | text (s : String)
  deriving DecidableEq, Repr

structure TaskToken where
  tokenId : String
  agentId : String
  runId : String
  grantedTools : Option (List String)
  grantedTables : List String
  grantedDataClasses : List String
  expiresAt : Nat
  parentTokenId : Option String
  escalationPolicy : String

/-- `settings.security`, and the signing secret. -/
structure TokenSettings where
  issuer : String
  ttlSeconds : Int
  secret : String

/-! ## Clocks -/

def second : Nat := 1000000

/-- The microseconds of `datetime.max`. -/
def maxInstant : Nat := 253402300800 * second - 1

/-- `now + timedelta(seconds=ttl)`, which may overflow; an instant before the epoch
counts as one. -/
def addSeconds (now : Nat) (ttl : Int) : Option Nat :=
  let t := (now : Int) + ttl * second
  if 0 ≤ t ∧ t ≤ maxInstant then some t.toNat else none

/-- The nearest integer to `a / b`, of two the even one. -/
def roundHalfEven (a b : Nat) : Nat :=
  if 2 * (a % b) < b then a / b
  else if b < 2 * (a % b) then a / b + 1
  else a / b + a / b % 2

/-- `int(difference.total_seconds())`: the quotient is rounded to a double, whose
whole part is taken. -/
def totalSeconds (micros : Nat) : Nat :=
  let bits := 52 - (micros / second).log2
  roundHalfEven (micros * 2 ^ bits) second / 2 ^ bits

section
variable (cfg : TokenSettings)

/-! ## Issuing and validating -/

/-- What `issue_task_token` meets: whether the secret is found, the id drawn, and
its reading of the clock. -/
structure IssueDraw where
  secretFound : Bool
  jti : String
  now : Nat

/-- `None` for a raised `RuntimeError` or `OverflowError`. -/
def issueTaskToken (agentId runId : String) (grantedTools grantedTables
    grantedDataClasses : Option (List String)) (ttlSeconds : Option Int)
    (parentTokenId : Option String) (escalationPolicy : String) (draw : IssueDraw) :
    Option Jwt :=
  if !draw.secretFound then none
  else
    (addSeconds draw.now (ttlSeconds.getD cfg.ttlSeconds)).map fun expiresAt =>
      .signed
        { jti := draw.jti
          sub := agentId
          iss := cfg.issuer
          iat := draw.now / second
          exp := expiresAt / second
          runId
          grantedTools
          grantedTables := grantedTables.getD []
          grantedDataClasses := grantedDataClasses.getD []
          parentTokenId
          escalationPolicy }
        cfg.secret

/-- `jwt.decode` -/
def decode (now : Nat) : Jwt → Option Payload
  | .text _ => none
  | .signed payload secret =>
    if secret ≠ cfg.secret then none
    else if payload.exp * second ≤ now then none
    else if now < payload.iat * second then none
    else some payload

def validateTaskToken (secretFound : Bool) (now : Nat) (token : Jwt) : Option TaskToken :=
  if !secretFound then none
  else
    (decode cfg now token).bind fun payload =>
      if payload.iss ≠ cfg.issuer then none
      else some
        { tokenId := payload.jti
          agentId := payload.sub
          runId := payload.runId
          grantedTools := payload.grantedTools
          grantedTables := payload.grantedTables
          grantedDataClasses := payload.grantedDataClasses
          expiresAt := payload.exp * second
          parentTokenId := payload.parentTokenId
          escalationPolicy := payload.escalationPolicy }

/-! ## Deriving -/

/-- What `derive_task_token` meets: its own secret lookup and clock readings, and
those of the call of `issue_task_token`, each at most later. -/
structure DeriveDraw where
  secretFound : Bool
  validatedAt : Nat
  toNow : Nat
  issueSecretFound : Bool
  jti : String
  toIssue : Nat

/-- The reading the lifetime is computed with. -/
def DeriveDraw.now (draw : DeriveDraw) : Nat := draw.validatedAt + draw.toNow

/-- The reading the lifetime is added to. -/
def DeriveDraw.issuedAt (draw : DeriveDraw) : Nat := draw.now + draw.toIssue

structure DeriveRequest where
  grantedTools : Option (List String)
  grantedDataClasses : Option (List String)
  ttlSeconds : Option Int

/-- `set(child) - set(parent)` is empty; `set(None)` raises. -/
def withinScope (child parent : Option (List String)) : Bool :=
  match child, parent with
  | some child, some parent => child.all parent.contains
  | _, _ => false

/-- `child_ttl`: what the request asks for, capped at what is left of the parent. -/
def childTtl (parentExpiresAt : Nat) (ttlSeconds : Option Int) (now : Nat) : Option Nat :=
  (addSeconds now (ttlSeconds.getD cfg.ttlSeconds)).map fun candidate =>
    totalSeconds (min parentExpiresAt candidate - now)

/-- `None` for a raised `PrivilegeEscalationError`, `ValueError` or what the calls
raise. -/
def deriveTaskToken (parentJwt : Jwt) (request : DeriveRequest) (draw : DeriveDraw) :
    Option Jwt :=
  (validateTaskToken cfg draw.secretFound draw.validatedAt parentJwt).bind fun parent =>
    if !withinScope request.grantedTools parent.grantedTools then none
    else if !withinScope request.grantedDataClasses (some parent.grantedDataClasses) then none
    else
      (childTtl cfg parent.expiresAt request.ttlSeconds draw.now).bind fun ttl =>
        if ttl = 0 then none
        else issueTaskToken cfg parent.agentId parent.runId request.grantedTools
          (some parent.grantedTables) request.grantedDataClasses (some ttl)
          (some parent.tokenId) parent.escalationPolicy
          ⟨draw.issueSecretFound, draw.jti, draw.issuedAt⟩

/-! ## Checking a tool against a token -/

/-- `validate_acl_token`, `none` where `tool_id in None` raises. -/
def validateAclToken (secretFound : Bool) (now : Nat) (taskToken : Option Jwt)
    (toolId : String) : Option Bool :=
  match taskToken with
  | none | some (.text "") => some true
  | some token =>
    match validateTaskToken cfg secretFound now token with
    | none => some false
    | some token => token.grantedTools.map (·.contains toolId)

end

end LegionForge.Security
