import LegionForge.Security.FetchUrl

/-!
# The tools that fetch

Four tools check the URL they are given and then request it. What is requested after that
is up to the servers: `http_get` and `http_post` leave redirects to the client, which
checks nothing; `web_fetch` follows them itself, one at a time, and checks each; and
`web_fetch_js` looks at what its browser asks for with a pattern of its own, but is not
asked about redirects and connections that are no requests of the page.

`fetches_guarded_iff` says for which answers of the servers everything that is requested
passes `validate_fetch_url`; for `web_fetch` it always does, and its loop ends.
-/

namespace LegionForge.Agent

open LegionForge.Security Regex

/-! ## The outside -/

/-- What the tools read of a response. -/
structure HttpResponse where
  status : Nat
  /-- `headers.get("location", "")` -/
  location : String

/-- `resp.is_redirect` -/
def HttpResponse.isRedirect (r : HttpResponse) : Bool := 300 ≤ r.status && r.status < 400

/-- A URL that is requested, and when. -/
abbrev Sent := Nat × String

/-- A request that the browser brings before the route handler. A redirect of it is not
brought there again. -/
structure BrowserRequest where
  moment : Nat
  url : String
  resourceType : String
  redirects : List Sent

/-- What the browser does for a page. -/
structure Visit where
  requests : List BrowserRequest
  /-- What is connected to without a request, as by a WebSocket. -/
  unrouted : List Sent

/-- Servers, name servers and browser. -/
structure World where
  /-- `socket.getaddrinfo`, at each moment -/
  getaddrinfo : Nat → String → DnsAnswer
  /-- The answer to a request, `none` if the request raises. -/
  serve : Nat → String → Option HttpResponse
  /-- `none` if Playwright is missing or its browser does not start. -/
  browse : String → Option Visit

structure FetchEnv extends UrlEnv where
  maxPostBodyBytes : Nat
  /-- Where `httpx` goes on to from a URL and a response. -/
  redirectUrl : String → HttpResponse → Option String

/-- How a fetch ends. -/
inductive FetchEnd where
  | blocked (e : FetchError)
  | bodyTooLarge
  | contentTypeRefused
  | notInstalled
  | redirectBlocked (e : FetchError)
  | tooManyRedirects
  | requestError
  | answered (status : Nat)
  | rendered
  deriving DecidableEq, Repr

section
variable (env : FetchEnv) (world : World)

/-! ## `http_get` and `http_post` -/

/-- `httpx.DEFAULT_MAX_REDIRECTS` -/
def defaultMaxRedirects : Nat := 20

/-- A client with `follow_redirects=True`. -/
def followRedirects : Nat → Nat → String → List Sent × FetchEnd
  | left, moment, url =>
    match world.serve moment url with
    | none => ([(moment, url)], .requestError)
    | some resp =>
      match env.redirectUrl url resp, left with
      | none, _ => ([(moment, url)], .answered resp.status)
      | some _, 0 => ([(moment, url)], .requestError)
      | some url', left + 1 =>
        let rest := followRedirects left (moment + 1) url'
        ((moment, url) :: rest.1, rest.2)

def validate (moment : Nat) (url : String) : Option FetchError :=
  validateFetchUrl env.toUrlEnv (world.getaddrinfo moment) url

def cleanUrl (url : String) : String := (sanitizeToolInput env.unicode url).1

/-- The URL is checked, and the client does the rest. -/
def checkedFetch (url : String) : List Sent × FetchEnd :=
  match validate env world 0 url with
  | some e => ([], .blocked e)
  | none => followRedirects env world defaultMaxRedirects 0 url

def httpGet (url : String) : List Sent × FetchEnd := checkedFetch env world (cleanUrl env url)

def allowedContentTypes : List String := ["application/json", "text/plain"]

def httpPost (url body contentType : String) : List Sent × FetchEnd :=
  if env.maxPostBodyBytes < body.utf8ByteSize then ([], .bodyTooLarge)
  else if contentType ∉ allowedContentTypes then ([], .contentTypeRefused)
  else checkedFetch env world (cleanUrl env url)

/-! ## `web_fetch` -/

/-- `_MAX_REDIRECTS` -/
def maxRedirects : Nat := 5

/-- The URL that a redirect leads to; one that starts with a slash is resolved. -/
def redirectTarget (currentUrl location : String) : Option String :=
  if "/".toList.isPrefixOf location.toList then
    (urlparse env.toUrlEnv currentUrl.toList).map fun p =>
      s!"{String.ofList p.scheme}://{String.ofList p.netloc}{location}"
  else some location

/-- The loop of `web_fetch`; without fuel it has not ended. -/
def webFetchLoop : Nat → String → Nat → List Sent × Option FetchEnd
  | 0, _, _ => ([], none)
  | fuel + 1, currentUrl, redirectCount =>
    if redirectCount ≤ maxRedirects then
      match world.serve redirectCount currentUrl with
      | none => ([(redirectCount, currentUrl)], some .requestError)
      | some resp =>
        if resp.isRedirect then
          if resp.location = "" then ([(redirectCount, currentUrl)], some .tooManyRedirects)
          else
            match redirectTarget env currentUrl resp.location with
            | none => ([(redirectCount, currentUrl)], some .requestError)
            | some location =>
              match validate env world (redirectCount + 1) location with
              | some e => ([(redirectCount, currentUrl)], some (.redirectBlocked e))
              | none =>
                let rest := webFetchLoop fuel location (redirectCount + 1)
                ((redirectCount, currentUrl) :: rest.1, rest.2)
        else ([(redirectCount, currentUrl)], some (.answered resp.status))
    else ([], some .tooManyRedirects)

def webFetch (fuel : Nat) (url : String) : List Sent × Option FetchEnd :=
  match validate env world 0 url with
  | some e => ([], some (.blocked e))
  | none => webFetchLoop env world fuel url 0

/-! ## `web_fetch_js` -/

/-- `_PRIVATE_URL_RE` -/
def privateUrlRe : Pattern :=
  let octets (n : Nat) := times (seqs [lit ".", digits 1 (some 3)]) n
  seqs [lit "http", opt (lit "s"), lit "://",
    alts [lit "localhost", seqs [lit "127", octets 3], lit "0.0.0.0", seqs [lit "10", octets 3],
      seqs [lit "172.", alts [seqs [lit "1", .set false [.range '6' '9']],
        seqs [lit "2", .set false [.digit]], seqs [lit "3", oneOf "01"]], octets 2],
      seqs [lit "192.168", octets 2], seqs [lit "169.254", octets 2], lit "::1"],
    alts [oneOf ":/", endOfText]]

/-- `_BLOCKED_RESOURCE_TYPES` -/
def blockedResourceTypes : List String :=
  ["image", "media", "font", "stylesheet", "websocket", "other"]

/-- `_route_handler` aborts the request. -/
def routeAborts (r : BrowserRequest) : Bool :=
  matchesStart env.unicode.toCharData true privateUrlRe r.url.toList ||
    blockedResourceTypes.contains r.resourceType

/-- What becomes of a request of the page. -/
def BrowserRequest.sent (r : BrowserRequest) : List Sent :=
  if routeAborts env r then [] else (r.moment, r.url) :: r.redirects

def webFetchJs (url : String) : List Sent × FetchEnd :=
  let url := cleanUrl env url
  match validate env world 0 url with
  | some e => ([], .blocked e)
  | none =>
    match world.browse url with
    | none => ([], .notInstalled)
    | some visit => (visit.requests.flatMap (BrowserRequest.sent env) ++ visit.unrouted, .rendered)

/-! ## What is to hold -/

inductive ToolRequest where
  | httpGet (url : String)
  | httpPost (url body contentType : String)
  | webFetch (url : String)
  | webFetchJs (url : String)

/-- What is requested, if the loop of `web_fetch` goes so many rounds at most. -/
def requested (rounds : Nat) : ToolRequest → List Sent
  | .httpGet url => (httpGet env world url).1
  | .httpPost url body contentType => (httpPost env world url body contentType).1
  | .webFetch url => (webFetch env world rounds url).1
  | .webFetchJs url => (webFetchJs env world url).1

/-- `validate_fetch_url` lets the URL through when it is requested. -/
def Passes (s : Sent) : Prop := validate env world s.1 s.2 = none

/-- Where so many redirects lead to from the URL, when it is requested at this moment. -/
def redirected : Nat → Nat → String → Option String
  | 0, _, url => some url
  | n + 1, moment, url =>
    ((world.serve moment url).bind (env.redirectUrl url)).bind (redirected n (moment + 1))

/-- No redirect that is followed leads to a URL that does not pass. -/
def RedirectsPass (url : String) : Prop :=
  ∀ n < defaultMaxRedirects, ∀ target, redirected env world (n + 1) 0 url = some target →
    Passes env world (n + 1, target)

/-- What the page asks for, and is not aborted, passes with all its redirects, and so does
what the handler is not asked about. -/
def VisitPasses (visit : Visit) : Prop :=
  (∀ r ∈ visit.requests, routeAborts env r = false →
      Passes env world (r.moment, r.url) ∧ ∀ s ∈ r.redirects, Passes env world s) ∧
    ∀ s ∈ visit.unrouted, Passes env world s

/-- What the servers may answer to a tool that passes its own checks. -/
def ServersHarmless : ToolRequest → Prop
  | .httpGet url =>
    validate env world 0 (cleanUrl env url) = none → RedirectsPass env world (cleanUrl env url)
  | .httpPost url body contentType =>
    body.utf8ByteSize ≤ env.maxPostBodyBytes → contentType ∈ allowedContentTypes →
      validate env world 0 (cleanUrl env url) = none → RedirectsPass env world (cleanUrl env url)
  | .webFetch _ => True
  | .webFetchJs url =>
    validate env world 0 (cleanUrl env url) = none →
      ∀ visit, world.browse (cleanUrl env url) = some visit → VisitPasses env world visit

end

section
variable {env : FetchEnv} {world : World}

/-! ## Redirects -/

/-- The request itself, and if it is redirected and may be, what comes of that. -/
theorem followRedirects_sent (left moment : Nat) (url : String) :
    (followRedirects env world left moment url).1 = (moment, url) ::
      match left, (world.serve moment url).bind (env.redirectUrl url) with
      | left + 1, some url' => (followRedirects env world left (moment + 1) url').1
      | _, _ => [] := by
  conv_lhs => rw [followRedirects.eq_def]
  dsimp only
  cases world.serve moment url with
  | none => cases left <;> rfl
  | some resp =>
    rw [Option.bind_some]
    dsimp only
    cases env.redirectUrl url resp with
    | none => cases left <;> rfl
    | some url' => cases left <;> rfl

/-- What a client requests that follows redirects. -/
theorem followRedirects_passes_iff (left : Nat) : ∀ (moment : Nat) (url : String),
    (∀ s ∈ (followRedirects env world left moment url).1, Passes env world s) ↔
      Passes env world (moment, url) ∧ ∀ n < left, ∀ target,
        redirected env world (n + 1) moment url = some target →
          Passes env world (moment + (n + 1), target) := by
  induction left with
  | zero =>
    intro moment url
    have one : (followRedirects env world 0 moment url).1 = [(moment, url)] :=
      followRedirects_sent 0 moment url
    rw [one, List.forall_mem_singleton]
    exact ⟨fun first => ⟨first, fun n hn => absurd hn (Nat.not_lt_zero n)⟩, And.left⟩
  | succ left ih =>
    intro moment url
    cases next : (world.serve moment url).bind (env.redirectUrl url) with
    | none =>
      have one : (followRedirects env world (left + 1) moment url).1 = [(moment, url)] := by
        rw [followRedirects_sent, next]
      have nowhere (n : Nat) : redirected env world (n + 1) moment url = none := by
        rw [redirected, next]
        rfl
      rw [one, List.forall_mem_singleton]
      refine ⟨fun first => ⟨first, fun n _ target there => ?_⟩, And.left⟩
      rw [nowhere n] at there
      cases there
    | some url' =>
      have more : (followRedirects env world (left + 1) moment url).1 =
          (moment, url) :: (followRedirects env world left (moment + 1) url').1 := by
        rw [followRedirects_sent, next]
      have shift (n : Nat) : redirected env world (n + 1) moment url =
          redirected env world n (moment + 1) url' := by
        rw [redirected, next]
        rfl
      rw [more, List.forall_mem_cons, ih]
      refine and_congr_right fun _ => ⟨?_, fun all => ⟨?_, ?_⟩⟩
      · rintro ⟨second, later⟩ n hn target there
        rw [shift] at there
        cases n with
        | zero =>
          cases there
          exact second
        | succ n =>
          have passes := later n (Nat.lt_of_succ_lt_succ hn) target there
          rwa [Nat.add_assoc, Nat.add_comm 1] at passes
      · exact all 0 (Nat.succ_pos left) url' (shift 0)
      · intro n hn target there
        have passes := all (n + 1) (Nat.succ_lt_succ hn) target ((shift (n + 1)).trans there)
        rwa [Nat.add_assoc, Nat.add_comm 1]

/-! ## The loop of `web_fetch` -/

/-- A round of the loop ends it, or goes on to a URL that was checked. -/
theorem webFetchLoop_round (env : FetchEnv) (world : World) (url : String) (count : Nat) :
    (∃ sent how, (∀ s ∈ sent, s = (count, url)) ∧
        ∀ fuel, webFetchLoop env world (fuel + 1) url count = (sent, some how)) ∨
      count ≤ maxRedirects ∧ ∃ location, validate env world (count + 1) location = none ∧
        ∀ fuel, webFetchLoop env world (fuel + 1) url count =
          ((count, url) :: (webFetchLoop env world fuel location (count + 1)).1,
            (webFetchLoop env world fuel location (count + 1)).2) := by
  have alone : ∀ s ∈ [(count, url)], s = (count, url) := fun s hs => List.mem_singleton.mp hs
  by_cases more : count ≤ maxRedirects
  · simp only [webFetchLoop, if_pos more]
    cases world.serve count url with
    | none => exact .inl ⟨_, _, alone, fun _ => rfl⟩
    | some resp =>
      cases redirect : resp.isRedirect with
      | false =>
        refine .inl ⟨_, .answered resp.status, alone, fun _ => ?_⟩
        simp only [redirect, Bool.false_eq_true, if_false]
      | true =>
        by_cases empty : resp.location = ""
        · refine .inl ⟨_, .tooManyRedirects, alone, fun _ => ?_⟩
          simp only [redirect, empty, if_true]
        · simp only [redirect, if_true, if_neg empty]
          cases redirectTarget env url resp.location with
          | none => exact .inl ⟨_, _, alone, fun _ => rfl⟩
          | some location =>
            dsimp only
            cases checked : validate env world (count + 1) location with
            | some e => exact .inl ⟨_, _, alone, fun _ => rfl⟩
            | none => exact .inr ⟨more, location, checked, fun _ => rfl⟩
  · simp only [webFetchLoop, if_neg more]
    exact .inl ⟨_, _, fun s hs => absurd hs List.not_mem_nil, fun _ => rfl⟩

/-- Every URL is checked before it is requested. -/
theorem webFetchLoop_passes (fuel : Nat) : ∀ (url : String) (count : Nat),
    Passes env world (count, url) →
      ∀ s ∈ (webFetchLoop env world fuel url count).1, Passes env world s := by
  induction fuel with
  | zero =>
    intro url count _ s hs
    cases hs
  | succ fuel ih =>
    intro url count passes s hs
    rcases webFetchLoop_round env world url count with
      ⟨sent, how, alone, round⟩ | ⟨-, location, checked, round⟩
    · rw [round] at hs
      rwa [alone s hs]
    · rw [round] at hs
      rcases List.mem_cons.mp hs with rfl | later
      · exact passes
      · exact ih location (count + 1) checked s later

/-- One round for each redirect that is left, and one that allows no other, are enough. -/
theorem webFetchLoop_ends (left : Nat) : ∀ (url : String) (count : Nat),
    maxRedirects + 1 ≤ left + count → ∃ how, ∀ fuel, left < fuel →
      (webFetchLoop env world fuel url count).2 = some how := by
  induction left with
  | zero =>
    intro url count exceeds
    rcases webFetchLoop_round env world url count with
      ⟨sent, how, -, round⟩ | ⟨more, -⟩
    · refine ⟨how, fun fuel enough => ?_⟩
      obtain ⟨fuel, rfl⟩ := Nat.exists_eq_succ_of_ne_zero (Nat.ne_of_gt enough)
      rw [round]
    · omega
  | succ left ih =>
    intro url count room
    rcases webFetchLoop_round env world url count with
      ⟨sent, how, -, round⟩ | ⟨-, location, -, round⟩
    · refine ⟨how, fun fuel enough => ?_⟩
      obtain ⟨fuel, rfl⟩ := Nat.exists_eq_succ_of_ne_zero (Nat.ne_zero_of_lt enough)
      rw [round]
    · obtain ⟨how, ends⟩ := ih location (count + 1) (by omega)
      refine ⟨how, fun fuel enough => ?_⟩
      obtain ⟨fuel, rfl⟩ := Nat.exists_eq_succ_of_ne_zero (Nat.ne_zero_of_lt enough)
      rw [round]
      exact ends fuel (Nat.lt_of_succ_lt_succ enough)

/-! ## Every tool -/

theorem checkedFetch_passes_iff (url : String) :
    (∀ s ∈ (checkedFetch env world url).1, Passes env world s) ↔
      (validate env world 0 url = none → RedirectsPass env world url) := by
  unfold checkedFetch
  cases checked : validate env world 0 url with
  | some e => exact iff_of_true (fun s hs => absurd hs List.not_mem_nil) nofun
  | none =>
    dsimp only
    rw [followRedirects_passes_iff]
    simp only [Nat.zero_add]
    refine ⟨fun all _ => all.2, fun later => ⟨checked, later trivial⟩⟩

theorem httpPost_passes_iff (url body contentType : String) :
    (∀ s ∈ (httpPost env world url body contentType).1, Passes env world s) ↔
      ServersHarmless env world (.httpPost url body contentType) := by
  unfold httpPost ServersHarmless
  split
  · next tooLarge =>
    exact iff_of_true (fun s hs => absurd hs List.not_mem_nil) fun fits =>
      absurd tooLarge (Nat.not_lt.mpr fits)
  · next fits =>
    split
    · next refused =>
      exact iff_of_true (fun s hs => absurd hs List.not_mem_nil) fun _ allowed =>
        absurd allowed refused
    · next allowed =>
      rw [checkedFetch_passes_iff]
      exact ⟨fun harmless _ _ => harmless, fun harmless =>
        harmless (Nat.le_of_not_lt fits) (not_not.mp allowed)⟩

theorem sent_passes_iff (r : BrowserRequest) :
    (∀ s ∈ r.sent env, Passes env world s) ↔ (routeAborts env r = false →
      Passes env world (r.moment, r.url) ∧ ∀ s ∈ r.redirects, Passes env world s) := by
  unfold BrowserRequest.sent
  cases routeAborts env r with
  | true => exact iff_of_true (fun s hs => absurd hs List.not_mem_nil) nofun
  | false =>
    rw [if_neg Bool.false_ne_true, List.forall_mem_cons]
    exact ⟨fun all _ => all, fun all => all rfl⟩

theorem webFetchJs_passes_iff (url : String) :
    (∀ s ∈ (webFetchJs env world url).1, Passes env world s) ↔
      ServersHarmless env world (.webFetchJs url) := by
  unfold webFetchJs ServersHarmless
  dsimp only
  cases validate env world 0 (cleanUrl env url) with
  | some e => exact iff_of_true (fun s hs => absurd hs List.not_mem_nil) nofun
  | none =>
    cases world.browse (cleanUrl env url) with
    | none => exact iff_of_true (fun s hs => absurd hs List.not_mem_nil) fun _ _ => nofun
    | some visit =>
      have all : (∀ s ∈ visit.requests.flatMap (BrowserRequest.sent env) ++ visit.unrouted,
          Passes env world s) ↔ VisitPasses env world visit := by
        rw [List.forall_mem_append, VisitPasses]
        refine and_congr_left fun _ => ?_
        simp only [List.mem_flatMap, ← sent_passes_iff]
        exact ⟨fun sent r hr s hs => sent s ⟨r, hr, hs⟩, fun sent s ⟨r, hr, hs⟩ => sent r hr s hs⟩
      refine all.trans ⟨fun passes _ visit' same => ?_, fun passes => passes rfl visit rfl⟩
      cases same
      exact passes

/-- Everything that the tools request passes exactly when the servers do no harm: no
redirect that `http_get` or `http_post` follows, no request of a page that `web_fetch_js`
lets through, and no redirect or connection behind its back leads to another URL. And the
loop of `web_fetch`, which asks nothing of them, ends. -/
theorem fetches_guarded_iff (env : FetchEnv) (world : World) :
    (∀ rounds tool, (∀ s ∈ requested env world rounds tool, Passes env world s) ↔
        ServersHarmless env world tool) ∧
      ∀ url, ∃ how, ∀ rounds, maxRedirects + 2 ≤ rounds →
        (webFetch env world rounds url).2 = some how := by
  refine ⟨fun rounds tool => ?_, fun url => ?_⟩
  · cases tool with
    | httpGet url => exact checkedFetch_passes_iff _
    | httpPost url body contentType => exact httpPost_passes_iff url body contentType
    | webFetch url =>
      refine iff_of_true ?_ trivial
      show ∀ s ∈ (webFetch env world rounds url).1, Passes env world s
      unfold webFetch
      cases checked : validate env world 0 url with
      | some e => exact fun s hs => absurd hs List.not_mem_nil
      | none => exact webFetchLoop_passes rounds url 0 checked
    | webFetchJs url => exact webFetchJs_passes_iff url
  · unfold webFetch
    cases validate env world 0 url with
    | some e => exact ⟨_, fun _ _ => rfl⟩
    | none => exact webFetchLoop_ends (maxRedirects + 1) url 0 (Nat.le_refl _)

end

/-! ## A redirect and a sub-resource -/

def sampleFetch : FetchEnv where
  unicode := .ascii
  netlocValid _ := true
  maxPostBodyBytes := 10240
  redirectUrl _ resp :=
    if [301, 302, 303, 307, 308].contains resp.status && resp.location != "" then
      some resp.location
    else none

/-- A public page that redirects to the metadata endpoint, and whose script asks for the
loopback address. -/
def hostileWorld : World where
  getaddrinfo _ _ := .addresses ["93.184.216.34"]
  serve _ url :=
    if url = "http://example.com/" then some ⟨302, "http://169.254.169.254/latest/"⟩
    else some ⟨200, ""⟩
  browse url := some
    { requests := [⟨0, url, "document", []⟩, ⟨1, "http://[::1]:5432/", "xhr", []⟩]
      unrouted := [] }

theorem guard_escaped :
    (¬ ∀ s ∈ requested sampleFetch hostileWorld 7 (.httpGet "http://example.com/"),
        Passes sampleFetch hostileWorld s) ∧
      ¬ ∀ s ∈ requested sampleFetch hostileWorld 7 (.webFetchJs "http://example.com/"),
        Passes sampleFetch hostileWorld s := by
  have get : requested sampleFetch hostileWorld 7 (.httpGet "http://example.com/") =
      [(0, "http://example.com/"), (1, "http://169.254.169.254/latest/")] := by decide +kernel
  have js : requested sampleFetch hostileWorld 7 (.webFetchJs "http://example.com/") =
      [(0, "http://example.com/"), (1, "http://[::1]:5432/")] := by decide +kernel
  have metadata : validate sampleFetch hostileWorld 1 "http://169.254.169.254/latest/" =
      some (.blockedHost "169.254.169.254") := by decide +kernel
  have loopback : validate sampleFetch hostileWorld 1 "http://[::1]:5432/" =
      some (.privateAddress "::1") := by decide +kernel
  refine ⟨fun all => ?_, fun all => ?_⟩
  · have passes := all (1, "http://169.254.169.254/latest/") (by rw [get]; simp)
    cases metadata.symm.trans passes
  · have passes := all (1, "http://[::1]:5432/") (by rw [js]; simp)
    cases loopback.symm.trans passes

end LegionForge.Agent
