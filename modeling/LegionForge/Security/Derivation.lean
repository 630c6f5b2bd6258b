import LegionForge.Security.TaskToken

/-!
# Chains of derived tokens

A chain is a run of `derive_task_token`, each call given the token before.
`deriveTaskToken_spec` says once what a derivation that succeeds leaves; scopes
and policy fields follow along any chain by transitivity.

Lifetimes do not quite. The lifetime is cut to the parent's remaining whole
seconds at one reading of the clock and added to a later one, so a derivation is
`Timely` when the later reading, in whole seconds, still leaves room for it.
`timely_iff` says what that asks of the two readings: the later one leaves room for
the whole lifetime asked for, or it is not in a second behind the one that the
earlier one was rounded up to.
-/

namespace LegionForge.Security

section
variable (cfg : TokenSettings)

/-- Deriving from the token of the step before. -/
def derivations : Machine Jwt (DeriveRequest × DeriveDraw) Unit where
  step token x := (deriveTaskToken cfg token x.1 x.2).map fun child => (child, ())

abbrev Derivation := Machine.Entry Jwt (DeriveRequest × DeriveDraw) Unit

/-- The lifetime, in whole seconds, that a request gets from a parent that expires
at `exp`. -/
def lifetime (exp : Nat) (request : DeriveRequest) (draw : DeriveDraw) : Nat :=
  (childTtl cfg (exp * second) request.ttlSeconds draw.now).getD 0

def Jwt.exp : Jwt → Nat
  | .signed payload _ => payload.exp
  | .text _ => 0

/-- The reading the lifetime is added to leaves room for it. -/
def Timely (x : Derivation) : Prop :=
  x.input.2.issuedAt / second + lifetime cfg x.before.exp x.input.1 x.input.2 ≤ x.before.exp

/-- The double nearest to the quotient in seconds is the next whole second: the last
microseconds before one, from 2 ^ 34 s on. -/
def RoundsUp (micros : Nat) : Prop :=
  2 * ((second - micros % second) * 2 ^ (52 - (micros / second).log2)) ≤ second

instance (micros : Nat) : Decidable (RoundsUp micros) :=
  inferInstanceAs (Decidable (_ ≤ _))

/-- The whole second that a token expiring at `exp` is cut back from at the reading
`now`. -/
def cutFrom (exp now : Nat) : Nat :=
  if RoundsUp (exp * second - now) then now / second else (now + second - 1) / second

/-- Either the later reading leaves room for all that was asked for, or it is in no
later second than the earlier one was cut from. -/
def ReadInTime (x : Derivation) : Prop :=
  ((x.input.2.issuedAt / second : Nat) : Int) + x.input.1.ttlSeconds.getD cfg.ttlSeconds ≤
      (x.before.exp : Int) ∨
    x.input.2.issuedAt / second ≤ cutFrom x.before.exp x.input.2.now

/-- The tool passes under the token, for a run that has it. -/
def Accepts (secretFound : Bool) (now : Nat) (token : Jwt) (toolId : String) : Prop :=
  validateAclToken cfg secretFound now (some token) toolId = some true

end

/-- What a token hands down: a part of its scope, and its policy fields as they are. -/
structure Attenuates (parent child : Payload) : Prop where
  tools : ∃ granted, child.grantedTools = some granted ∧
    ∃ allowed, parent.grantedTools = some allowed ∧ granted ⊆ allowed
  dataClasses : child.grantedDataClasses ⊆ parent.grantedDataClasses
  agentId : child.sub = parent.sub
  runId : child.runId = parent.runId
  tables : child.grantedTables = parent.grantedTables
  policy : child.escalationPolicy = parent.escalationPolicy

theorem Attenuates.trans {a b c : Payload} (ab : Attenuates a b) (bc : Attenuates b c) :
    Attenuates a c := by
  obtain ⟨granted, at_c, allowed, at_b, inner⟩ := bc.tools
  obtain ⟨granted', at_b', allowed', at_a, outer⟩ := ab.tools
  rw [at_b] at at_b'
  cases at_b'
  exact
    { tools := ⟨granted, at_c, allowed', at_a, List.Subset.trans inner outer⟩
      dataClasses := List.Subset.trans bc.dataClasses ab.dataClasses
      agentId := bc.agentId.trans ab.agentId
      runId := bc.runId.trans ab.runId
      tables := bc.tables.trans ab.tables
      policy := bc.policy.trans ab.policy }

section
variable {cfg : TokenSettings}

/-! ## What a call leaves -/

theorem decode_eq_some {now : Nat} {token : Jwt} {payload : Payload}
    (h : decode cfg now token = some payload) :
    token = .signed payload cfg.secret ∧ now < payload.exp * second ∧
      payload.iat * second ≤ now := by
  cases token with
  | text => cases h
  | signed p secret =>
    rw [decode] at h
    split at h
    · cases h
    · next same =>
      split at h
      · cases h
      · next live =>
        split at h
        · cases h
        · next issued =>
          cases h
          rw [not_not] at same
          rw [same]
          exact ⟨rfl, by omega, by omega⟩

theorem decode_signed {now : Nat} {payload : Payload} (live : now < payload.exp * second)
    (issued : payload.iat * second ≤ now) :
    decode cfg now (.signed payload cfg.secret) = some payload := by
  rw [decode, if_neg (by simp), if_neg (by omega), if_neg (by omega)]

/-- The token a validated payload is read into. -/
def Payload.token (payload : Payload) : TaskToken where
  tokenId := payload.jti
  agentId := payload.sub
  runId := payload.runId
  grantedTools := payload.grantedTools
  grantedTables := payload.grantedTables
  grantedDataClasses := payload.grantedDataClasses
  expiresAt := payload.exp * second
  parentTokenId := payload.parentTokenId
  escalationPolicy := payload.escalationPolicy

theorem validateTaskToken_eq_some {secretFound : Bool} {now : Nat} {token : Jwt}
    {t : TaskToken} (h : validateTaskToken cfg secretFound now token = some t) :
    ∃ payload, secretFound = true ∧ decode cfg now token = some payload ∧
      payload.iss = cfg.issuer ∧ t = payload.token := by
  unfold validateTaskToken at h
  split at h
  · cases h
  · next found =>
    obtain ⟨payload, decoded, h⟩ := Option.bind_eq_some_iff.mp h
    split at h
    · cases h
    · next issuer =>
      cases h
      rw [not_not] at issuer
      exact ⟨payload, by simpa using found, decoded, issuer, rfl⟩

theorem withinScope_iff {child parent : Option (List String)} :
    withinScope child parent = true ↔
      ∃ granted, child = some granted ∧ ∃ allowed, parent = some allowed ∧
        granted ⊆ allowed := by
  cases child <;> cases parent <;> simp [withinScope, List.subset_def]

theorem addSeconds_spec {now t : Nat} {ttl : Int} (h : addSeconds now ttl = some t) :
    (t : Int) = now + ttl * second ∧ t ≤ maxInstant := by
  unfold addSeconds at h
  dsimp only at h
  split at h
  · next fits =>
    cases h
    omega
  · cases h

theorem addSeconds_eq_some {now ttl t : Nat} (h : addSeconds now ttl = some t) :
    t = now + ttl * second := by
  have sum := (addSeconds_spec h).1
  omega

/-- Everything a derivation that succeeds leaves. -/
theorem deriveTaskToken_spec {token child : Jwt} {request : DeriveRequest}
    {draw : DeriveDraw} (h : deriveTaskToken cfg token request draw = some child) :
    ∃ p c, token = .signed p cfg.secret ∧ child = .signed c cfg.secret ∧
      Attenuates p c ∧ p.iss = cfg.issuer ∧ c.iss = cfg.issuer ∧
      p.iat * second ≤ draw.validatedAt ∧ c.iat = draw.issuedAt / second ∧
      c.exp = draw.issuedAt / second + lifetime cfg p.exp request draw ∧
      c.parentTokenId = some p.jti := by
  unfold deriveTaskToken at h
  obtain ⟨t, valid, rest⟩ := Option.bind_eq_some_iff.mp h
  clear h
  obtain ⟨p, -, decoded, issuer, rfl⟩ := validateTaskToken_eq_some valid
  obtain ⟨rfl, -, issued⟩ := decode_eq_some decoded
  split at rest
  · cases rest
  · next tools =>
    split at rest
    · cases rest
    · next classes =>
      rw [Bool.not_eq_true, Bool.not_eq_false', withinScope_iff] at tools classes
      obtain ⟨ttl, eq, rest⟩ := Option.bind_eq_some_iff.mp rest
      split at rest
      · cases rest
      · unfold issueTaskToken at rest
        split at rest
        · cases rest
        · obtain ⟨expiresAt, sum, rest⟩ := Option.map_eq_some_iff.mp rest
          obtain ⟨granted, asked, _, same, part⟩ := classes
          cases same
          refine ⟨p, _, rfl, rest.symm, ?_, issuer, rfl, issued, rfl, ?_, rfl⟩
          · exact
              { tools := tools
                dataClasses := by rw [asked]; exact part
                agentId := rfl
                runId := rfl
                tables := rfl
                policy := rfl }
          · have sum := addSeconds_eq_some sum
            have lasts : lifetime cfg p.exp request draw = ttl := by
              rw [lifetime]
              exact congrArg (Option.getD · 0) eq
            dsimp only
            rw [sum, lasts]
            exact Nat.add_mul_div_right _ _ (by decide)

theorem derivation_steps {x : Derivation} (h : (derivations cfg).Steps x) :
    deriveTaskToken cfg x.before x.input.1 x.input.2 = some x.after := by
  obtain ⟨child, step, same⟩ := Option.map_eq_some_iff.mp h
  cases same
  exact step

/-- A child ends no later than its parent exactly when its derivation is timely. -/
theorem derived_exp_le_iff {x : Derivation} (h : (derivations cfg).Steps x) :
    x.after.exp ≤ x.before.exp ↔ Timely cfg x := by
  obtain ⟨p, c, before, after, -, -, -, -, -, ends, -⟩ :=
    deriveTaskToken_spec (derivation_steps h)
  rw [Timely, before, after]
  dsimp only [Jwt.exp]
  rw [ends]

/-! ## Which readings leave room -/

theorem roundHalfEven_eq_add {a b : Nat} :
    roundHalfEven a b = a / b +
      if b < 2 * (a % b) ∨ 2 * (a % b) = b ∧ a / b % 2 = 1 then 1 else 0 := by
  unfold roundHalfEven
  split_ifs <;> omega

/-- Scaled to bits below the point, the whole part is one more where the last bit
rounds into it. -/
theorem roundHalfEven_scaled {micros m : Nat} :
    roundHalfEven (micros * 2 ^ (m + 1)) second / 2 ^ (m + 1) =
      micros / second +
        if 2 * ((second - micros % second) * 2 ^ (m + 1)) ≤ second then 1 else 0 := by
  have scale : 2 ^ (m + 1) = 2 * 2 ^ m := Nat.pow_succ'
  have pos : 0 < 2 ^ (m + 1) := Nat.two_pow_pos _
  generalize 2 ^ (m + 1) = M at *
  have within : micros % second < second := Nat.mod_lt _ (by decide)
  have parts : micros * M = micros % second * M + second * (micros / second * M) := by
    rw [← Nat.mul_assoc, ← Nat.add_mul, Nat.mod_add_div]
  have lt : micros % second * M < second * M := Nat.mul_lt_mul_of_pos_right within pos
  have gap : (second - micros % second) * M = second * M - micros % second * M :=
    Nat.sub_mul ..
  have even : micros / second * M = 2 * (micros / second * 2 ^ m) := by
    rw [scale]
    exact Nat.mul_left_comm ..
  rw [roundHalfEven_eq_add, gap, parts, Nat.add_mul_div_left _ _ (by decide),
    Nat.add_mul_mod_self_left]
  -- what is left of a second, in units of the last bit
  generalize micros % second * M = w at *
  have unit : w / second < M := by
    rw [Nat.div_lt_iff_lt_mul (by decide), Nat.mul_comm]
    exact lt
  rw [Nat.add_right_comm, Nat.add_mul_div_right _ _ pos, Nat.add_comm]
  congr 1
  rw [show second = 1000000 from rfl] at *
  split_ifs with up whole whole
  · rw [show w / 1000000 + 1 = M by omega, Nat.div_self pos]
  · exact Nat.div_eq_of_lt (by omega)
  · omega
  · exact Nat.div_eq_of_lt (by omega)

/-- The whole seconds of a difference, and where the double quotient has one more. -/
theorem totalSeconds_eq {micros : Nat} (small : micros / second < 2 ^ 52) :
    totalSeconds micros = micros / second + if RoundsUp micros then 1 else 0 := by
  have bits : (micros / second).log2 < 52 := by
    by_cases zero : micros / second = 0
    · rw [zero]
      decide
    · exact (Nat.log2_lt zero).mpr small
  obtain ⟨m, half⟩ : ∃ m, 52 - (micros / second).log2 = m + 1 :=
    ⟨51 - (micros / second).log2, by omega⟩
  have up : RoundsUp micros ↔
      2 * ((second - micros % second) * 2 ^ (m + 1)) ≤ second := by
    rw [RoundsUp, half]
  rw [if_congr up rfl rfl]
  unfold totalSeconds
  dsimp only
  rw [half, roundHalfEven_scaled]

/-- A whole number of seconds is what it is. -/
theorem not_roundsUp_mul {n : Nat} : ¬ RoundsUp (n * second) := by
  rw [RoundsUp, Nat.mul_mod_left, Nat.sub_zero]
  have pos : 0 < 2 ^ (52 - (n * second / second).log2) := Nat.two_pow_pos _
  generalize 2 ^ (52 - (n * second / second).log2) = M at *
  rw [show second = 1000000 from rfl]
  omega

theorem le_cutFrom {exp now : Nat} : now / second ≤ cutFrom exp now := by
  unfold cutFrom
  split_ifs
  · exact Nat.le_refl _
  · exact Nat.div_le_div_right (Nat.le_sub_one_of_lt (Nat.lt_add_of_pos_right (by decide)))

theorem cutFrom_le {exp now : Nat} : cutFrom exp now ≤ (now + second - 1) / second := by
  unfold cutFrom
  split_ifs
  · exact Nat.div_le_div_right (Nat.le_sub_one_of_lt (Nat.lt_add_of_pos_right (by decide)))
  · exact Nat.le_refl _

/-- A lifetime that the parent has room for is all that was asked for. -/
theorem totalSeconds_mul {n : Nat} (small : n < 2 ^ 52) : totalSeconds (n * second) = n := by
  have whole : n * second / second = n := Nat.mul_div_cancel _ (by decide)
  rw [totalSeconds_eq (by rw [whole]; exact small), if_neg not_roundsUp_mul, whole,
    Nat.add_zero]

/-- Any other is counted back from the parent's end to the second it is cut from. -/
theorem add_totalSeconds_le_iff {exp now n : Nat} (live : now < exp * second)
    (small : exp * second ≤ maxInstant) :
    n + totalSeconds (exp * second - now) ≤ exp ↔ n ≤ cutFrom exp now := by
  have bound : (exp * second - now) / second < 2 ^ 52 := by
    rw [show maxInstant = 253402300799999999 from rfl] at small
    rw [show second = 1000000 from rfl] at *
    omega
  rw [totalSeconds_eq bound]
  unfold cutFrom
  by_cases up : RoundsUp (exp * second - now)
  · have part : ¬ (exp * second - now) % second = 0 := by
      intro whole
      rw [← Nat.div_mul_cancel (Nat.dvd_of_mod_eq_zero whole)] at up
      exact not_roundsUp_mul up
    rw [if_pos up, if_pos up]
    rw [show second = 1000000 from rfl] at *
    omega
  · rw [if_neg up, if_neg up]
    rw [show second = 1000000 from rfl] at *
    omega

/-- The readings that leave room for the lifetime cut at the earlier of the two. -/
theorem add_lifetime_le_iff {exp now n candidate : Nat} {ttl : Int}
    (sum : (candidate : Int) = now + ttl * second) (fits : candidate ≤ maxInstant)
    (live : now < min (exp * second) candidate) :
    n + totalSeconds (min (exp * second) candidate - now) ≤ exp ↔
      (n : Int) + ttl ≤ exp ∨ n ≤ cutFrom exp now := by
  rcases Nat.le_total candidate (exp * second) with roomy | tight
  · rw [Nat.min_eq_right roomy] at live ⊢
    obtain ⟨asked, rfl⟩ : ∃ asked : Nat, ttl = asked := by
      refine Int.eq_ofNat_of_zero_le ?_
      rw [show second = 1000000 from rfl] at *
      omega
    have all : candidate - now = asked * second := by omega
    have small : asked < 2 ^ 52 := by
      rw [show maxInstant = 253402300799999999 from rfl] at fits
      rw [show second = 1000000 from rfl] at *
      omega
    rw [all, totalSeconds_mul small]
    have cut := @cutFrom_le exp now
    rw [show second = 1000000 from rfl] at *
    omega
  · rw [Nat.min_eq_left tight] at live ⊢
    have cut := @le_cutFrom exp now
    rw [add_totalSeconds_le_iff live (Nat.le_trans tight fits)]
    refine ⟨.inr, ?_⟩
    rintro (room | early)
    · rw [show second = 1000000 from rfl] at *
      omega
    · exact early

theorem totalSeconds_zero : totalSeconds 0 = 0 := by decide

/-- What a derivation that succeeds computes its lifetime from. -/
theorem lifetime_of_derived {p : Payload} {child : Jwt} {request : DeriveRequest}
    {draw : DeriveDraw}
    (h : deriveTaskToken cfg (.signed p cfg.secret) request draw = some child) :
    ∃ candidate, addSeconds draw.now (request.ttlSeconds.getD cfg.ttlSeconds) =
        some candidate ∧
      lifetime cfg p.exp request draw =
        totalSeconds (min (p.exp * second) candidate - draw.now) ∧
      draw.now < min (p.exp * second) candidate := by
  unfold deriveTaskToken at h
  obtain ⟨t, valid, rest⟩ := Option.bind_eq_some_iff.mp h
  clear h
  obtain ⟨p', -, decoded, -, rfl⟩ := validateTaskToken_eq_some valid
  obtain ⟨same, -, -⟩ := decode_eq_some decoded
  cases same
  split at rest
  · cases rest
  · split at rest
    · cases rest
    · obtain ⟨ttl, eq, rest⟩ := Option.bind_eq_some_iff.mp rest
      split at rest
      · cases rest
      · next pos =>
        obtain ⟨candidate, sum, cut⟩ := Option.map_eq_some_iff.mp eq
        have lasts : lifetime cfg p.exp request draw = ttl :=
          congrArg (Option.getD · 0) eq
        refine ⟨candidate, sum, lasts.trans cut.symm, ?_⟩
        by_contra past
        rw [Nat.not_lt] at past
        dsimp only [Payload.token] at cut
        rw [Nat.sub_eq_zero_of_le past, totalSeconds_zero] at cut
        exact pos cut.symm

/-- A derivation is timely exactly when its clock is read in time. -/
theorem timely_iff {x : Derivation} (h : (derivations cfg).Steps x) :
    Timely cfg x ↔ ReadInTime cfg x := by
  have derived := derivation_steps h
  obtain ⟨p, c, before, -⟩ := deriveTaskToken_spec derived
  rw [before] at derived
  obtain ⟨candidate, sum, lasts, live⟩ := lifetime_of_derived derived
  obtain ⟨sum, fits⟩ := addSeconds_spec sum
  unfold Timely ReadInTime
  rw [before]
  dsimp only [Jwt.exp]
  rw [lasts]
  exact add_lifetime_le_iff sum fits live

/-! ## Chains -/

/-- The one token attenuates to the other. -/
def Jwt.Attenuates (cfg : TokenSettings) (a d : Jwt) : Prop :=
  ∃ pa pd, a = .signed pa cfg.secret ∧ d = .signed pd cfg.secret ∧
    Security.Attenuates pa pd

theorem Jwt.Attenuates.trans {a b c : Jwt} (ab : a.Attenuates cfg b)
    (bc : b.Attenuates cfg c) : a.Attenuates cfg c := by
  obtain ⟨pa, pb, rfl, rfl, ab⟩ := ab
  obtain ⟨pb', pc, same, rfl, bc⟩ := bc
  cases same
  exact ⟨pa, pc, rfl, rfl, ab.trans bc⟩

theorem attenuates_of_step {x : Derivation} (h : (derivations cfg).Steps x) :
    x.before.Attenuates cfg x.after := by
  obtain ⟨p, c, before, after, narrows, -⟩ := deriveTaskToken_spec (derivation_steps h)
  exact ⟨p, c, before, after, narrows⟩

/-- Along a chain every token attenuates to every later one. -/
theorem chain_pairwise (root : Jwt) (inputs : List (DeriveRequest × DeriveDraw)) :
    (root :: ((derivations cfg).run root inputs).map (·.after)).Pairwise
      (Jwt.Attenuates cfg) := by
  refine Machine.run_induction (motive := fun token trace =>
    (token :: trace.map (·.after)).Pairwise (Jwt.Attenuates cfg)) ?_ ?_ root inputs
  · intro token
    exact List.pairwise_singleton _ _
  · intro x rest step later
    rw [List.map_cons]
    refine .cons (fun d hd => ?_) later
    have here := attenuates_of_step step
    rcases List.mem_cons.mp hd with rfl | hd
    · exact here
    · exact here.trans ((List.pairwise_cons.mp later).1 d hd)

/-- The token is one of ours and was issued no earlier than the root. -/
def FollowsRoot (cfg : TokenSettings) (root : Payload) (token : Jwt) : Prop :=
  ∃ c, token = .signed c cfg.secret ∧ root.iss = cfg.issuer ∧ c.iss = cfg.issuer ∧
    root.iat ≤ c.iat

theorem followsRoot_of_step {x : Derivation} {root : Payload}
    (h : (derivations cfg).Steps x)
    (from_ : x.before = .signed root cfg.secret ∨ FollowsRoot cfg root x.before) :
    FollowsRoot cfg root x.after := by
  obtain ⟨p, c, before, after, -, valid, issuer, issued, iat, -, -⟩ :=
    deriveTaskToken_spec (derivation_steps h)
  have later : p.iat ≤ c.iat := by
    have reading : x.input.2.validatedAt ≤ x.input.2.issuedAt := by
      rw [DeriveDraw.issuedAt, DeriveDraw.now]
      omega
    rw [iat, Nat.le_div_iff_mul_le (by decide)]
    omega
  rcases from_ with start | ⟨p', at_, ofRoot, -, earlier⟩
  · rw [before] at start
    cases start
    exact ⟨c, after, valid, issuer, later⟩
  · rw [before] at at_
    cases at_
    exact ⟨c, after, ofRoot, issuer, Nat.le_trans earlier later⟩

theorem chain_followsRoot (root : Payload) (inputs : List (DeriveRequest × DeriveDraw)) :
    ∀ x ∈ (derivations cfg).run (.signed root cfg.secret) inputs,
      FollowsRoot cfg root x.after := by
  intro x hx
  have run := @Machine.run_invariant _ _ _ (derivations cfg)
    (fun token => token = .signed root cfg.secret ∨ FollowsRoot cfg root token)
    (fun _ step from_ => .inr (followsRoot_of_step step from_)) _ inputs (.inl rfl) x hx
  exact followsRoot_of_step run.1 run.2.1

/-- With timely derivations no token of a chain outlives the first. -/
theorem chain_exp_le (root : Jwt) (inputs : List (DeriveRequest × DeriveDraw))
    (timely : ∀ x ∈ (derivations cfg).run root inputs, Timely cfg x) :
    ∀ x ∈ (derivations cfg).run root inputs, x.after.exp ≤ root.exp := by
  intro x hx
  exact (@Machine.run_invariant_of_ok _ _ _ (derivations cfg) (fun t => t.exp ≤ root.exp)
    (Timely cfg) (fun y step ok le => Nat.le_trans ((derived_exp_le_iff step).mpr ok) le)
    root inputs (Nat.le_refl _) timely x hx).2.2

/-- For every token and every chain of derivations from it: a child ends no later
than its parent exactly when its clock is read in time, and where every derivation's
is, no token of the chain outlives the first. -/
theorem no_outliving_iff (cfg : TokenSettings) (root : Jwt)
    (inputs : List (DeriveRequest × DeriveDraw)) :
    (∀ x ∈ (derivations cfg).run root inputs,
        (x.after.exp ≤ x.before.exp ↔ ReadInTime cfg x)) ∧
      ((∀ x ∈ (derivations cfg).run root inputs, ReadInTime cfg x) →
        ∀ x ∈ (derivations cfg).run root inputs, x.after.exp ≤ root.exp) := by
  have steps : ∀ x ∈ (derivations cfg).run root inputs, (derivations cfg).Steps x :=
    fun x hx => (@Machine.run_invariant _ _ _ (derivations cfg) (fun _ => True)
      (fun _ _ _ => trivial) root inputs trivial x hx).1
  refine ⟨fun x hx => ?_, fun inTime => ?_⟩
  · exact (derived_exp_le_iff (steps x hx)).trans (timely_iff (steps x hx))
  · exact chain_exp_le root inputs fun x hx => (timely_iff (steps x hx)).mpr (inTime x hx)

/-- What a tool needs to pass under one of our tokens. -/
theorem accepts_signed_iff {secretFound : Bool} {now : Nat} {p : Payload}
    {toolId : String} :
    Accepts cfg secretFound now (.signed p cfg.secret) toolId ↔
      secretFound = true ∧ now < p.exp * second ∧ p.iat * second ≤ now ∧
        p.iss = cfg.issuer ∧ ∃ granted, p.grantedTools = some granted ∧ toolId ∈ granted := by
  unfold Accepts validateAclToken
  dsimp only
  refine ⟨?_, ?_⟩
  · intro h
    split at h
    · cases h
    · next t valid =>
      obtain ⟨payload, found, decoded, issuer, rfl⟩ := validateTaskToken_eq_some valid
      obtain ⟨same, live, issued⟩ := decode_eq_some decoded
      cases same
      obtain ⟨granted, at_, mem⟩ := Option.map_eq_some_iff.mp h
      exact ⟨found, live, issued, issuer, granted, at_, List.contains_iff_mem.mp mem⟩
  · rintro ⟨rfl, live, issued, issuer, granted, at_, mem⟩
    have valid : validateTaskToken cfg true now (.signed p cfg.secret) = some p.token := by
      rw [validateTaskToken, decode_signed live issued]
      simp [issuer, Payload.token]
    rw [valid]
    simp [Payload.token, at_, mem]

/-- For every root and every chain of derivations from it: each token's scope is a
part of that of every token before it, with the same policy fields; and when the
derivations are timely, a tool that passes under a token passes under the root, at
every reading of the clock. -/
theorem chain_attenuates (cfg : TokenSettings) (root : Payload)
    (inputs : List (DeriveRequest × DeriveDraw)) :
    ((.signed root cfg.secret :: ((derivations cfg).run (.signed root cfg.secret) inputs).map
        (·.after)).Pairwise (Jwt.Attenuates cfg)) ∧
      ((∀ x ∈ (derivations cfg).run (.signed root cfg.secret) inputs, Timely cfg x) →
        ∀ x ∈ (derivations cfg).run (.signed root cfg.secret) inputs,
          ∀ secretFound now toolId, Accepts cfg secretFound now x.after toolId →
            Accepts cfg secretFound now (.signed root cfg.secret) toolId) := by
  have pairs := @chain_pairwise cfg (.signed root cfg.secret) inputs
  refine ⟨pairs, fun timely x hx secretFound now toolId accepted => ?_⟩
  have ends := chain_exp_le _ inputs timely x hx
  obtain ⟨c, after, ofRoot, -, earlier⟩ := chain_followsRoot root inputs x hx
  obtain ⟨p, c', start, after', narrows⟩ :=
    (List.pairwise_cons.mp pairs).1 x.after (List.mem_map_of_mem hx)
  cases start
  rw [after] at after' accepted ends
  cases after'
  obtain ⟨found, live, issued, -, granted, at_, mem⟩ := accepts_signed_iff.mp accepted
  obtain ⟨granted', at_', allowed, ofParent, part⟩ := narrows.tools
  rw [at_] at at_'
  cases at_'
  have ends : c.exp * second ≤ root.exp * second := Nat.mul_le_mul_right _ ends
  have earlier : root.iat * second ≤ c.iat * second := Nat.mul_le_mul_right _ earlier
  exact accepts_signed_iff.mpr
    ⟨found, by omega, by omega, ofRoot, allowed, ofParent, part mem⟩

end

/-! ## A slow secret lookup -/

def sampleSettings : TokenSettings where
  issuer := "legionforge"
  ttlSeconds := 3600
  secret := "secret"

/-- A token that expires 1000 s after the epoch. -/
def samplePayload : Payload where
  jti := "token-1"
  sub := "orchestrator"
  iss := "legionforge"
  iat := 0
  exp := 1000
  runId := "run-1"
  grantedTools := some ["web_search"]
  grantedTables := []
  grantedDataClasses := ["public"]
  parentTokenId := none
  escalationPolicy := "deny"

/-- Derived at 900.5 s with a secret lookup of two seconds. -/
def slowDerivation : DeriveRequest × DeriveDraw :=
  ({ grantedTools := some ["web_search"], grantedDataClasses := some ["public"],
     ttlSeconds := none },
    { secretFound := true, validatedAt := 900500000, toNow := 0, issueSecretFound := true,
      jti := "token-2", toIssue := 2000000 })

/-- The child ends a second behind its parent. -/
theorem slow_child_outlives :
    ∃ x ∈ (derivations sampleSettings).run (.signed samplePayload "secret")
        [slowDerivation], x.before.exp = 1000 ∧ x.after.exp = 1001 := by
  decide +kernel

/-- In that second the tool passes under the child and not under the root. -/
theorem accepted_under_child_only :
    ∃ x ∈ (derivations sampleSettings).run (.signed samplePayload "secret")
        [slowDerivation],
      Accepts sampleSettings true 1000500000 x.after "web_search" ∧
        ¬ Accepts sampleSettings true 1000500000 (.signed samplePayload "secret")
          "web_search" := by
  unfold Accepts
  decide +kernel

end LegionForge.Security
