import LegionForge.Gateway.Accounts
import LegionForge.Lib.SlidingWindow
import LegionForge.Security.Sanitize

/-!
# The submission rate limit

`SubmissionRateLimitMiddleware` runs before a request is authenticated. It files the
request under its path and the first twenty characters of what follows `Bearer `, or under
the address where the header starts otherwise, and `require_user` reads the same header by
rules of its own. So whom a bucket belongs to depends on what the requests look like:
users share one where these characters agree or an address does, and a user has several
where the spelling differs.

Both results are about the traffic the gateway may see, any set of requests.
`rate_limit_isolated_iff` says for which the answers to one user do not depend on the
others, `rate_limit_per_principal_iff` for which a user gets no more through than the limit.
Of each bucket by itself the limit is exact (`submission_window_exact`).

The readings of `time.monotonic` and their differences are taken as exact. They are floats,
whose difference at the bound is exact from sixty seconds after the boot on.
-/

namespace LegionForge.Gateway

open Security SlidingWindow

/-- What the middleware and `require_user` read of a request. -/
structure HttpRequest where
  method : String
  urlPath : String
  authorization : Option String
  clientHost : Option String
  deriving DecidableEq

structure RateSettings where
  submissionRateLimitPerMinute : Int
  memoryRateLimitPerMinute : Int

structure RateLimitEnv where
  unicode : Unicode
  /-- `settings.gateway`, `none` where the settings are not available. -/
  settings : Option RateSettings
  /-- `base64.b64decode(text).decode("utf-8", errors="replace")`, `none` if it raises. -/
  decodeBasic : String → Option String
  /-- The user the active backend finds for a credential and its scheme. -/
  backend : String → String → Option String

/-- A request with the time at which the middleware looks at it, in whole nanoseconds. -/
structure Arrival where
  time : Int
  request : HttpRequest
  deriving DecidableEq

section
variable (env : RateLimitEnv)

/-! ## Who a request is from -/

def startsWith (text pre : String) : Bool := pre.toList.isPrefixOf text.toList

/-- The token `HTTPBearer` extracts. -/
def httpBearer (authorization : String) : Option String :=
  let scheme := authorization.toList.takeWhile (· ≠ ' ')
  let param := (authorization.toList.dropWhile (· ≠ ' ')).drop 1
  if scheme.map Char.toLower = "bearer".toList && param ≠ [] then some (String.ofList param)
  else none

/-- The credential and its scheme. -/
def credentialOf (r : HttpRequest) : Option (String × String) :=
  let authHeader := r.authorization.getD ""
  let lower := String.ofList (authHeader.toList.map Char.toLower)
  let behind (n : Nat) := env.unicode.strip (String.ofList (authHeader.toList.drop n))
  if startsWith lower "bearer " then some (behind 7, schemeBearer)
  else if startsWith lower "basic " then
    (env.decodeBasic (behind 6)).map fun decoded => (decoded, schemeBasic)
  else if startsWith lower "negotiate " then some (behind 10, schemeNegotiate)
  else (httpBearer authHeader).map fun token => (token, schemeBearer)

/-- `require_user`; `none` is a 401. -/
def requireUser (r : HttpRequest) : Option String :=
  match credentialOf env r with
  | none => none
  | some (credential, scheme) => if credential = "" then none else env.backend credential scheme

/-! ## The middleware -/

def memoryPaths : List String := ["/memory/ingest", "/memory/search"]

def rateLimitedPaths : List String := ["/tasks", "/tasks/batch"] ++ memoryPaths

def windowSeconds : Int := 60

/-- `request.url.path.rstrip("/")` -/
def HttpRequest.path (r : HttpRequest) : String :=
  String.ofList (r.urlPath.toList.reverse.dropWhile (· = '/')).reverse

def rateLimit (path : String) : Int :=
  match env.settings with
  | none => 10
  | some gateway =>
    if memoryPaths.contains path then gateway.memoryRateLimitPerMinute
    else gateway.submissionRateLimitPerMinute

/-- `_key` -/
def bucketKey (r : HttpRequest) : String :=
  let auth := r.authorization.getD ""
  if startsWith auth "Bearer " then
    s!"{r.path}:token:{String.ofList ((auth.toList.drop 7).take 20)}"
  else
    let host := r.clientHost.getD "unknown"
    s!"{r.path}:ip:{host}"

/-- `dispatch`: the buckets afterwards, and whether the request is passed on. A bucket
that is empty is no longer in the dict. -/
def dispatch (windows : Windows String) (a : Arrival) : Windows String × Bool :=
  let path := a.request.path
  if a.request.method = "POST" && rateLimitedPaths.contains path then
    let limit := rateLimit env path
    if limit > 0 then
      let key := bucketKey a.request
      let windows := Function.update windows key
        ((windows key).filter fun t => a.time - t < windowSeconds * 1000000000)
      if (windows key).length ≥ limit then (windows, false)
      else (Function.update windows key (windows key ++ [a.time]), true)
    else (windows, true)
  else (windows, true)

def answersFrom : Windows String → List Arrival → List (Arrival × Bool)
  | _, [] => []
  | w, a :: rest => (a, (dispatch env w a).2) :: answersFrom (dispatch env w a).1 rest

/-- Requests in the order in which they came. -/
structure History where
  arrivals : List Arrival
  ordered : arrivals.Pairwise fun a b => a.time ≤ b.time

/-- Every request with whether it is passed on, from the start of the gateway. -/
def answers (h : History) : List (Arrival × Bool) := answersFrom env (fun _ => []) h.arrivals

/-! ## As a limiter -/

/-- The bucket the request is counted in and its limit, if it is counted. -/
def askOf (r : HttpRequest) : Option (String × Nat) :=
  if r.method = "POST" && rateLimitedPaths.contains r.path && decide (0 < rateLimit env r.path) then
    some (bucketKey r, (rateLimit env r.path).toNat)
  else none

def limiter : Limiter String Arrival where
  width := windowSeconds * 1000000000
  now := Arrival.time
  ask a := askOf env a.request

/-- Two requests are counted in one bucket. -/
def SharesBucket (a b : HttpRequest) : Prop :=
  ∃ key n m, askOf env a = some (key, n) ∧ askOf env b = some (key, m)

variable {env}

theorem dispatch_eq (w : Windows String) (a : Arrival) :
    dispatch env w a = (limiter env).serve w a := by
  unfold dispatch Limiter.serve limiter askOf
  dsimp only
  cases counted : a.request.method = "POST" && rateLimitedPaths.contains a.request.path with
  | false => simp
  | true =>
    by_cases on : 0 < rateLimit env a.request.path
    · simp only [on, if_true, decide_true, Bool.and_self, Function.update_self,
        Function.update_idem, ge_iff_le, ← Int.toNat_le]
      rfl
    · simp [on]

theorem answersFrom_eq (arrivals : List Arrival) : ∀ w : Windows String,
    answersFrom env w arrivals = (limiter env).run w arrivals := by
  induction arrivals with
  | nil => intro w; rfl
  | cons a rest ih =>
    intro w
    rw [answersFrom, Limiter.run, dispatch_eq, ih]

theorem answers_eq (h : History) :
    answers env h = (limiter env).run (fun _ => []) h.arrivals :=
  answersFrom_eq h.arrivals _

theorem askOf_some {r : HttpRequest} {key : String} {n : Nat} (ask : askOf env r = some (key, n)) :
    r.method = "POST" ∧ r.path ∈ rateLimitedPaths ∧ 0 < rateLimit env r.path ∧
      bucketKey r = key ∧ n = (rateLimit env r.path).toNat := by
  unfold askOf at ask
  split at ask
  · next counted =>
    rw [Bool.and_eq_true, Bool.and_eq_true, decide_eq_true_eq, decide_eq_true_eq,
      List.contains_iff_mem] at counted
    obtain ⟨⟨post, limited⟩, on⟩ := counted
    cases ask
    exact ⟨post, limited, on, rfl, rfl⟩
  · cases ask

theorem askOf_limited {r : HttpRequest} (post : r.method = "POST")
    (limited : r.path ∈ rateLimitedPaths) (on : 0 < rateLimit env r.path) :
    askOf env r = some (bucketKey r, (rateLimit env r.path).toNat) := by
  unfold askOf
  rw [if_pos]
  rw [post, List.contains_iff_mem.mpr limited, decide_eq_true on]
  rfl

/-- The key of a limited path ends the path at its first colon. -/
theorem path_of_key {r : HttpRequest} (limited : r.path ∈ rateLimitedPaths) :
    (bucketKey r).toList.takeWhile (· ≠ ':') = r.path.toList := by
  have plain : ∀ c ∈ r.path.toList, c ≠ ':' := by
    have all : rateLimitedPaths.all (fun p => p.toList.all (· ≠ ':')) = true := by decide
    simpa using List.all_eq_true.mp (List.all_eq_true.mp all _ limited)
  have cut : ∀ rest, (r.path.toList ++ ':' :: rest).takeWhile (· ≠ ':') = r.path.toList := by
    intro rest
    rw [List.takeWhile_append_of_pos (by simpa using plain)]
    simp
  unfold bucketKey
  dsimp only
  split
  · have key : ∀ token : String, (s!"{r.path}:token:{token}").toList =
        r.path.toList ++ ':' :: ("token:".toList ++ token.toList) := by
      intro token
      simp [toString]
    rw [key]
    exact cut _
  · have key : ∀ host : String, (s!"{r.path}:ip:{host}").toList =
        r.path.toList ++ ':' :: ("ip:".toList ++ host.toList) := by
      intro host
      simp [toString]
    rw [key]
    exact cut _

/-- Requests in one bucket have one limit. -/
theorem askOf_inj {a b : HttpRequest} {key : String} {n m : Nat}
    (askA : askOf env a = some (key, n)) (askB : askOf env b = some (key, m)) :
    a.path = b.path ∧ n = m := by
  obtain ⟨-, limitedA, -, keyA, rfl⟩ := askOf_some askA
  obtain ⟨-, limitedB, -, keyB, rfl⟩ := askOf_some askB
  have path : a.path = b.path := String.toList_inj.mp <| by
    rw [← path_of_key limitedA, ← path_of_key limitedB, keyA, keyB]
  exact ⟨path, by rw [path]⟩

theorem width_pos : 0 < (limiter env).width := by
  show 0 < windowSeconds * 1000000000
  decide

/-- A burst at one instant, as large as the limit. -/
def burst (r : HttpRequest) (n : Nat) : List Arrival := List.replicate n ⟨0, r⟩

theorem ordered_of_instant {arrivals : List Arrival} (instant : ∀ a ∈ arrivals, a.time = 0) :
    arrivals.Pairwise fun a b => a.time ≤ b.time :=
  List.pairwise_of_forall_mem_list fun a ha b hb =>
    Int.le_of_eq ((instant a ha).trans (instant b hb).symm)

theorem time_of_burst {r : HttpRequest} {n : Nat} {a : Arrival} (mem : a ∈ burst r n) :
    a = ⟨0, r⟩ := List.eq_of_mem_replicate mem

/-- As many requests as the limit allows get through at once. -/
theorem answers_burst {r : HttpRequest} {key : String} {limit n : Nat}
    (ask : askOf env r = some (key, limit)) (room : n ≤ limit) :
    answersFrom env (fun _ => []) (burst r n) = List.replicate n (⟨0, r⟩, true) := by
  rw [answersFrom_eq]
  exact (@Limiter.run_burst String Arrival _ (limiter env) ⟨0, r⟩ key limit ask
    width_pos n (fun _ => []) 0 rfl (by omega)).1

/-- As many requests as the limit allows, and one more of the bucket. -/
theorem answers_after_burst {a b : HttpRequest} {key : String} {n : Nat}
    (askA : askOf env a = some (key, n)) (askB : askOf env b = some (key, n)) :
    answersFrom env (fun _ => []) (burst a n ++ [⟨0, b⟩]) =
      List.replicate n (⟨0, a⟩, true) ++ [(⟨0, b⟩, false)] := by
  obtain ⟨through, full⟩ := @Limiter.run_burst String Arrival _ (limiter env) ⟨0, a⟩ key n askA
    width_pos n (fun _ => []) 0 rfl (by omega)
  have refused : ((limiter env).serve
      (Function.update (fun _ => []) key (List.replicate (0 + n) 0)) ⟨0, b⟩).2 = false := by
    refine @Limiter.serve_full String Arrival _ (limiter env) _ ⟨0, b⟩ key n askB width_pos ?_
    rw [Function.update_self, Nat.zero_add]
    rfl
  rw [answersFrom_eq, Limiter.run_append, burst, through, full, Limiter.run, Limiter.run]
  exact congrArg (fun ok : Bool =>
    List.replicate n ((⟨0, a⟩ : Arrival), true) ++ [((⟨0, b⟩ : Arrival), ok)]) refused

/-! ## Isolation -/

section
variable (env) (traffic : HttpRequest → Prop) (u : String)

def OfTraffic (h : History) : Prop := ∀ a ∈ h.arrivals, traffic a.request

/-- The request is authenticated as somebody else. -/
def ofOther (r : HttpRequest) : Bool := (requireUser env r).any (· ≠ u)

def mineOf (r : HttpRequest) : Bool := requireUser env r = some u

/-- At the same times the same requests, but for those authenticated as others. -/
def DifferInOthers (h h' : History) : Prop :=
  h.arrivals.filter (fun a => !ofOther env u a.request) =
    h'.arrivals.filter fun a => !ofOther env u a.request

/-- Which requests of the user are passed on. -/
def answersTo (h : History) : List (Arrival × Bool) :=
  (answers env h).filter fun a => mineOf env u a.1.request

/-- What the others send does not change the answers to the user. -/
def Isolated : Prop :=
  ∀ h h' : History, OfTraffic traffic h → OfTraffic traffic h' → DifferInOthers env u h h' →
    answersTo env u h = answersTo env u h'

end

theorem not_ofOther_of_mineOf {u : String} {r : HttpRequest} (mine : mineOf env u r = true) :
    ofOther env u r = false := by
  rw [mineOf, decide_eq_true_eq] at mine
  rw [ofOther, mine]
  simp

/-- In a bucket of the user's or unlimited and the user's own. -/
def inBucketsOf (env : RateLimitEnv) (u : String) (arrivals : List Arrival) (a : Arrival) : Bool :=
  mineOf env u a.request ||
    arrivals.any fun b => mineOf env u b.request &&
      ((askOf env b.request).any fun bucket =>
        (askOf env a.request).any fun bucket' => bucket.1 = bucket'.1)

theorem inBucketsOf_iff {u : String} {arrivals : List Arrival} {a : Arrival} :
    inBucketsOf env u arrivals a = true ↔ mineOf env u a.request = true ∨
      ∃ b ∈ arrivals, mineOf env u b.request = true ∧ SharesBucket env b.request a.request := by
  unfold inBucketsOf SharesBucket
  simp only [Bool.or_eq_true, List.any_eq_true, Bool.and_eq_true, Option.any_eq_true,
    decide_eq_true_eq, Prod.exists]
  refine or_congr_right (exists_congr fun b => and_congr_right fun _ => and_congr_right fun _ => ?_)
  constructor
  · rintro ⟨key, n, ask, key', m, ask', rfl⟩
    exact ⟨key, n, m, ask, ask'⟩
  · rintro ⟨key, n, m, ask, ask'⟩
    exact ⟨key, n, ask, key, m, ask', rfl⟩

/-- What a history shows the user depends on the requests in the user's buckets. -/
theorem answersTo_eq {u : String} {h : History} {arrivals : List Arrival}
    (all : ∀ a ∈ h.arrivals, a ∈ arrivals) :
    answersTo env u h =
      ((limiter env).run (fun _ => []) (h.arrivals.filter (inBucketsOf env u arrivals))).filter
        fun a => mineOf env u a.1.request := by
  have apart : ∀ x ∈ h.arrivals, ∀ y ∈ h.arrivals, inBucketsOf env u arrivals x = true →
      inBucketsOf env u arrivals y = false → ¬ (limiter env).Share x y := by
    rintro x hx y - inside outside ⟨key, keyX, keyY⟩
    obtain ⟨⟨_, n⟩, askX, rfl⟩ := Option.map_eq_some_iff.mp keyX
    obtain ⟨⟨_, m⟩, askY, rfl⟩ := Option.map_eq_some_iff.mp keyY
    refine absurd (inBucketsOf_iff.mpr (.inr ?_)) (Bool.eq_false_iff.mp outside)
    rcases inBucketsOf_iff.mp inside with mine | ⟨b, hb, mine, key', k, k', askB, askX'⟩
    · exact ⟨x, all x hx, mine, _, n, m, askX, askY⟩
    · have same := askX.symm.trans askX'
      cases same
      exact ⟨b, hb, mine, _, k, m, askB, askY⟩
  have parts := @Limiter.run_filter String Arrival _ (limiter env) (inBucketsOf env u arrivals)
    h.arrivals (fun _ => []) (fun _ => []) apart fun _ _ _ _ _ => rfl
  rw [answersTo, answers_eq, ← parts, List.filter_filter]
  refine List.filter_congr fun a _ => ?_
  cases mine : mineOf env u a.1.request with
  | false => rfl
  | true => rw [inBucketsOf_iff.mpr (.inl mine), Bool.and_self]

theorem isolated_of_apart {traffic : HttpRequest → Prop} {u : String}
    (apart : ∀ a b, traffic a → traffic b → ofOther env u a = true → mineOf env u b = true →
      ¬ SharesBucket env b a) : Isolated env traffic u := by
  intro h h' from_ from_' same
  have inside : ∀ g : History, OfTraffic traffic g →
      g.arrivals.filter (inBucketsOf env u (h.arrivals ++ h'.arrivals)) =
        (g.arrivals.filter fun a => !ofOther env u a.request).filter
          (inBucketsOf env u (h.arrivals ++ h'.arrivals)) := by
    intro g fromG
    rw [List.filter_filter]
    refine List.filter_congr fun a mem => ?_
    cases other : ofOther env u a.request with
    | false => rw [Bool.not_false, Bool.and_true]
    | true =>
      rw [Bool.not_true, Bool.and_false]
      refine Bool.eq_false_iff.mpr fun bucket => ?_
      rcases inBucketsOf_iff.mp bucket with mine | ⟨b, hb, mine, shares⟩
      · rw [not_ofOther_of_mineOf mine] at other
        cases other
      · have traffic_b : traffic b.request :=
          (List.mem_append.mp hb).elim (from_ b) (from_' b)
        exact apart a.request b.request (fromG a mem) traffic_b other mine shares
  rw [answersTo_eq fun a mem => List.mem_append_left h'.arrivals mem,
    answersTo_eq fun a mem => List.mem_append_right h.arrivals mem, inside h from_,
    inside h' from_', show _ = _ from same]

/-- Another user's burst uses up a bucket they share. -/
theorem not_isolated_of_shared {traffic : HttpRequest → Prop} {u : String} {a b : HttpRequest}
    (hA : traffic a) (hB : traffic b) (other : ofOther env u a = true)
    (mine : mineOf env u b = true) (shares : SharesBucket env b a) :
    ¬ Isolated env traffic u := by
  obtain ⟨key, m, n, askB, askA⟩ := shares
  obtain rfl := (askOf_inj askA askB).2
  intro isolated
  have notMine : mineOf env u a = false := by
    cases own : mineOf env u a with
    | false => rfl
    | true =>
      rw [not_ofOther_of_mineOf own] at other
      cases other
  have notOther := not_ofOther_of_mineOf mine
  have room : 0 < n := by
    obtain ⟨-, -, on, -, rfl⟩ := askOf_some askA
    omega
  let crowded : History := ⟨burst a n ++ [⟨0, b⟩], ordered_of_instant fun x mem => by
    rcases List.mem_append.mp mem with mem | mem
    · rw [time_of_burst mem]
    · rw [List.mem_singleton.mp mem]⟩
  let alone : History := ⟨burst b 1, List.pairwise_singleton _ _⟩
  have differ : DifferInOthers env u crowded alone := by
    have none : (burst a n).filter (fun x => !ofOther env u x.request) = [] := by
      rw [List.filter_eq_nil_iff]
      intro x mem
      rw [time_of_burst mem, other]
      decide
    unfold DifferInOthers
    rw [List.filter_append, none]
    rfl
  have same := isolated crowded alone
    (fun x mem => by
      rcases List.mem_append.mp mem with mem | mem
      · rw [time_of_burst mem]
        exact hA
      · rw [List.mem_singleton.mp mem]
        exact hB)
    (fun x mem => by
      rw [time_of_burst mem]
      exact hB) differ
  have refused : answersTo env u crowded = [(⟨0, b⟩, false)] := by
    have none : (List.replicate n ((⟨0, a⟩ : Arrival), true)).filter
        (fun x => mineOf env u x.1.request) = [] := by
      rw [List.filter_eq_nil_iff]
      intro x mem
      rw [List.eq_of_mem_replicate mem, notMine]
      decide
    unfold answersTo answers
    rw [answers_after_burst askA askB, List.filter_append, none, List.nil_append,
      List.filter_cons_of_pos (by exact mine)]
    rfl
  have passed : answersTo env u alone = [(⟨0, b⟩, true)] := by
    unfold answersTo answers
    rw [answers_burst askB room]
    exact List.filter_cons_of_pos (by exact mine)
  rw [refused, passed] at same
  cases same

/-- For every set of requests the gateway may see and every user: what others send never
changes the answers to the user, if and only if no request of theirs is counted in a bucket
of the user's. -/
theorem rate_limit_isolated_iff (env : RateLimitEnv) (traffic : HttpRequest → Prop) (u : String) :
    Isolated env traffic u ↔
      ∀ a b, traffic a → traffic b → ofOther env u a = true → mineOf env u b = true →
        ¬ SharesBucket env b a :=
  ⟨fun isolated _ _ hA hB other mine shares =>
    not_isolated_of_shared hA hB other mine shares isolated, isolated_of_apart⟩

/-! ## The bound per user -/

section
variable (env) (traffic : HttpRequest → Prop)

/-- A POST on the path, by the user from the client, that was passed on in the window
from `s` on. -/
def passedOn (u : String) (client : Option String) (path : String) (s : Int)
    (a : Arrival × Bool) : Bool :=
  a.2 && decide (a.1.request.method = "POST") && decide (a.1.request.path = path) &&
    mineOf env u a.1.request && decide (a.1.request.clientHost = client) &&
    decide (s ≤ a.1.time) && decide (a.1.time < s + windowSeconds * 1000000000)

def passedInWindow (u : String) (client : Option String) (path : String) (s : Int)
    (h : History) : List (Arrival × Bool) :=
  (answers env h).filter (passedOn env u client path s)

/-- Nobody gets more through than the limit, where there is one. -/
def BoundedPerUser : Prop :=
  ∀ h : History, OfTraffic traffic h → ∀ u client path s, path ∈ rateLimitedPaths →
    0 < rateLimit env path →
    ((passedInWindow env u client path s h).length : Int) ≤ rateLimit env path

/-- Limited requests of one user from one client, to one path. -/
structure SamePrincipal (a b : HttpRequest) : Prop where
  user : ∃ u, requireUser env a = some u ∧ requireUser env b = some u
  client : a.clientHost = b.clientHost
  path : a.path = b.path
  limited : (askOf env a).isSome = true ∧ (askOf env b).isSome = true

end

theorem bounded_of_one_bucket {traffic : HttpRequest → Prop}
    (one : ∀ a b, traffic a → traffic b → SamePrincipal env a b → SharesBucket env a b) :
    BoundedPerUser env traffic := by
  intro h from_ u client path s limited on
  cases passed : passedInWindow env u client path s h with
  | nil =>
    rw [List.length_nil]
    omega
  | cons e rest =>
    rw [← passed]
    have facts : ∀ a ∈ passedInWindow env u client path s h, a.1 ∈ h.arrivals ∧ a.2 = true ∧
        a.1.request.path = path ∧ requireUser env a.1.request = some u ∧
        a.1.request.clientHost = client ∧
        askOf env a.1.request = some (bucketKey a.1.request, (rateLimit env path).toNat) ∧
        (limiter env).inWindow s a.1.time = true := by
      intro a mem
      obtain ⟨answered, holds⟩ := List.mem_filter.mp mem
      rw [answers_eq] at answered
      simp only [passedOn, mineOf, Bool.and_eq_true, decide_eq_true_eq] at holds
      obtain ⟨⟨⟨⟨⟨⟨ok, post⟩, hpath⟩, mine⟩, host⟩, from_s⟩, to_s⟩ := holds
      subst hpath
      refine ⟨Limiter.fst_mem_of_run answered, ok, rfl, mine, host,
        askOf_limited post limited on, ?_⟩
      rw [Limiter.inWindow, Bool.and_eq_true, decide_eq_true_eq, decide_eq_true_eq]
      exact ⟨from_s, to_s⟩
    obtain ⟨memE, -, pathE, mineE, hostE, askE, -⟩ :=
      facts e (by rw [passed]; exact List.mem_cons_self)
    have count := @Limiter.count_passed_le String Arrival _ (limiter env)
      (bucketKey e.1.request) (rateLimit env path).toNat h.arrivals
      (passedOn env u client path s) s h.ordered
      (fun x _ n ask => Nat.le_of_eq (askOf_inj ask askE).2)
      (fun a mem holds => by
        obtain ⟨memA, ok, pathA, mineA, hostA, askA, inside⟩ :=
          facts a (List.mem_filter.mpr ⟨by rw [answers_eq]; exact mem, holds⟩)
        obtain ⟨key, n, m, askA', askE'⟩ := one _ _ (from_ _ memA) (from_ _ memE)
          ⟨⟨u, mineA, mineE⟩, hostA.trans hostE.symm, pathA.trans pathE.symm,
            by rw [askA]; rfl, by rw [askE]; rfl⟩
        rw [askE] at askE'
        cases askE'
        exact ⟨ok, Limiter.key_of_ask askA', inside⟩)
    unfold passedInWindow
    rw [answers_eq]
    omega

/-- Two buckets let two bursts through. -/
theorem not_bounded_of_two_buckets {traffic : HttpRequest → Prop} {a b : HttpRequest}
    (hA : traffic a) (hB : traffic b) (same : SamePrincipal env a b)
    (apart : ¬ SharesBucket env a b) : ¬ BoundedPerUser env traffic := by
  obtain ⟨⟨u, mineA, mineB⟩, host, path, limitedA, limitedB⟩ := same
  obtain ⟨⟨keyA, n⟩, askA⟩ := Option.isSome_iff_exists.mp limitedA
  obtain ⟨⟨keyB, m⟩, askB⟩ := Option.isSome_iff_exists.mp limitedB
  have keys : keyB ≠ keyA := fun eq => apart ⟨keyA, n, m, askA, eq ▸ askB⟩
  obtain ⟨postA, limited, on, -, rfl⟩ := askOf_some askA
  obtain ⟨postB, -, -, -, rfl⟩ := askOf_some askB
  rw [← path] at askB
  intro bounded
  let n := (rateLimit env a.path).toNat
  let h : History := ⟨burst a n ++ burst b n, ordered_of_instant fun x mem => by
    rcases List.mem_append.mp mem with mem | mem <;> rw [time_of_burst mem]⟩
  have from_ : OfTraffic traffic h := fun x mem => by
    rcases List.mem_append.mp mem with mem | mem
    · rw [time_of_burst mem]
      exact hA
    · rw [time_of_burst mem]
      exact hB
  have all : answers env h =
      List.replicate n (⟨0, a⟩, true) ++ List.replicate n (⟨0, b⟩, true) := by
    obtain ⟨first, left⟩ := @Limiter.run_burst String Arrival _ (limiter env) ⟨0, a⟩ keyA n
      askA width_pos n (fun _ => []) 0 rfl (by omega)
    have second := (@Limiter.run_burst String Arrival _ (limiter env) ⟨0, b⟩ keyB n askB
      width_pos n (Function.update (fun _ => []) keyA (List.replicate (0 + n) 0)) 0
      (Function.update_of_ne keys _ _) (by omega)).1
    rw [answers_eq, Limiter.run_append, burst, burst, first, left]
    exact congrArg _ second
  have count := bounded h from_ u a.clientHost a.path 0 limited on
  have passed : passedInWindow env u a.clientHost a.path 0 h = answers env h := by
    rw [passedInWindow, List.filter_eq_self, all]
    intro x mem
    rcases List.mem_append.mp mem with mem | mem <;> rw [List.eq_of_mem_replicate mem]
    · simp [passedOn, mineOf, postA, mineA, windowSeconds]
    · simp [passedOn, mineOf, postB, mineB, windowSeconds, host, path]
  rw [passed, all, List.length_append, List.length_replicate, List.length_replicate] at count
  omega

/-- For every set of requests the gateway may see: each user gets at most as many
requests through as the limit in every window, from one client and on one path, if and
only if the requests of one user, client and path are all counted in one bucket. -/
theorem rate_limit_per_principal_iff (env : RateLimitEnv) (traffic : HttpRequest → Prop) :
    BoundedPerUser env traffic ↔
      ∀ a b, traffic a → traffic b → SamePrincipal env a b → SharesBucket env a b := by
  refine ⟨fun bounded a b hA hB same => ?_, bounded_of_one_bucket⟩
  by_contra apart
  exact not_bounded_of_two_buckets hA hB same apart bounded

/-! ## The window -/

section
variable (env)

/-- When requests of the bucket were passed on. -/
def acceptedTimes (key : String) (answered : List (Arrival × Bool)) : List Int :=
  (answered.filter fun a => a.2 && decide ((askOf env a.1.request).map (·.1) = some key)).map
    fun a => a.1.time

/-- The time is in the sixty seconds from `s` on. -/
def withinWindow (s t : Int) : Bool :=
  decide (s ≤ t) && decide (t < s + windowSeconds * 1000000000)

/-- The time is in the sixty seconds up to `now`. -/
def withinLast (now t : Int) : Bool :=
  decide (now - t < windowSeconds * 1000000000) && decide (t ≤ now)

end

/-- For every bucket and every history: no window of sixty seconds holds more accepted
requests of the bucket than its limit, and a request of the bucket is rejected only with
that many of them in the sixty seconds before it. -/
theorem submission_window_exact (env : RateLimitEnv) (h : History) {r : HttpRequest}
    {key : String} {limit : Nat} (bucket : askOf env r = some (key, limit)) :
    (∀ s, ((acceptedTimes env key (answers env h)).filter (withinWindow s)).length ≤ limit) ∧
      ∀ past a later, answers env h = past ++ (a, false) :: later →
        (askOf env a.request).map (·.1) = some key →
          ((acceptedTimes env key past).filter (withinLast a.time)).length = limit := by
  have limits : ∀ x ∈ h.arrivals, ∀ n, (limiter env).ask x = some (key, n) → n ≤ limit :=
    fun x _ n ask => Nat.le_of_eq (askOf_inj ask bucket).2
  refine ⟨fun s => ?_, fun past a later split counted => ?_⟩
  · rw [answers_eq]
    exact @Limiter.let_through_le String Arrival _ (limiter env) key limit h.arrivals h.ordered
      limits s
  · obtain ⟨⟨_, n⟩, ask, rfl⟩ := Option.map_eq_some_iff.mp counted
    obtain rfl := (askOf_inj ask bucket).2
    rw [answers_eq] at split
    obtain ⟨full, older⟩ := @Limiter.refused_full String Arrival _ (limiter env) _ n h.arrivals
      past later a h.ordered limits ask split
    refine Eq.trans (congrArg List.length ?_) full
    refine List.filter_congr fun t mem => ?_
    show (decide (a.time - t < windowSeconds * 1000000000) && decide (t ≤ a.time)) = _
    rw [decide_eq_true (show t ≤ a.time from older t mem), Bool.and_true]
    rfl

end

/-! ## Tokens that begin alike, and one token spelt twice -/

/-- The shipped limits, and three tokens; those of the provider are signed in one way and
so begin with one header. -/
def sampleRateEnv : RateLimitEnv where
  unicode := .ascii
  settings := some ⟨10, 10⟩
  decodeBasic _ := none
  backend credential scheme :=
    if scheme = schemeBearer then
      [("eyJhbGciOiJSUzI1NiJ9.eyJzdWIiOiJhbGljZSJ9.c2ln", "oidc:alice"),
        ("eyJhbGciOiJSUzI1NiJ9.eyJzdWIiOiJib2IifQ.c2ln", "oidc:bob"),
        ("lf_b7Qz1nT4", "carol")].lookup credential
    else none

def postTask (authorization : String) : HttpRequest where
  method := "POST"
  urlPath := "/tasks"
  authorization := some authorization
  clientHost := some "203.0.113.7"

/-- Ten submissions at once, one when the window is about to move and one when it has. -/
def fullWindow : History where
  arrivals := burst (postTask "Bearer lf_b7Qz1nT4") 10 ++
    [⟨59999999999, postTask "Bearer lf_b7Qz1nT4"⟩, ⟨60000000000, postTask "Bearer lf_b7Qz1nT4"⟩]
  ordered := by decide +kernel

theorem fullWindow_exact :
    ((answers sampleRateEnv fullWindow).map (·.2) = List.replicate 10 true ++ [false, true]) ∧
      ∀ s, ((acceptedTimes sampleRateEnv "/tasks:token:lf_b7Qz1nT4"
        (answers sampleRateEnv fullWindow)).filter (withinWindow s)).length ≤ 10 :=
  ⟨by decide +kernel, (submission_window_exact sampleRateEnv fullWindow
    (r := postTask "Bearer lf_b7Qz1nT4") (by decide +kernel)).1⟩

/-- Ten submissions of one user lock another one out. -/
theorem jwt_users_share_bucket :
    ¬ Isolated sampleRateEnv
      (fun r => r = postTask "Bearer eyJhbGciOiJSUzI1NiJ9.eyJzdWIiOiJhbGljZSJ9.c2ln" ∨
        r = postTask "Bearer eyJhbGciOiJSUzI1NiJ9.eyJzdWIiOiJib2IifQ.c2ln") "oidc:bob" :=
  not_isolated_of_shared (.inl rfl) (.inr rfl) (by decide +kernel) (by decide +kernel)
    ⟨"/tasks:token:eyJhbGciOiJSUzI1NiJ9", 10, 10, by decide +kernel, by decide +kernel⟩

/-- With `bearer` in place of `Bearer` ten more get through. -/
theorem spelling_doubles_limit :
    ¬ BoundedPerUser sampleRateEnv fun r =>
      r = postTask "Bearer lf_b7Qz1nT4" ∨ r = postTask "bearer lf_b7Qz1nT4" := by
  refine not_bounded_of_two_buckets (a := postTask "Bearer lf_b7Qz1nT4")
    (b := postTask "bearer lf_b7Qz1nT4") (.inl rfl) (.inr rfl)
    ⟨⟨"carol", by decide +kernel, by decide +kernel⟩, rfl, rfl, by decide +kernel,
      by decide +kernel⟩ ?_
  rintro ⟨key, n, m, askA, askB⟩
  obtain ⟨-, -, -, keyA, -⟩ := askOf_some askA
  obtain ⟨-, -, -, keyB, -⟩ := askOf_some askB
  exact absurd (keyA.trans keyB.symm) (by decide +kernel)

end LegionForge.Gateway
