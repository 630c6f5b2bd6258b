import LegionForge.Gateway.Memory

/-!
# What a user sees of the others' documents

Psycopg refuses every statement of these endpoints but the query of a search: the others call
a method that its connections lack, hand `execute` what it does not take, or bind a dict. So a
request is one of two kinds (`memoryStep_cases`): a query, which reads the documents of the
namespace it names, or a request with the same reply whatever the table holds. Neither changes
the table, and what the others request cannot show in a user's replies.

What is left is the query itself. Its namespace is whatever the body says, and nothing asks
whose namespace that is.
-/

namespace LegionForge.Gateway

variable {ν : Type}

/-! ## Namespaces -/

theorem userNamespace_inj {u v : String} (h : userNamespace u = userNamespace v) : u = v := by
  have same := congrArg String.toList h
  simp only [userNamespace, String.toList_append] at same
  exact String.toList_injective (List.append_cancel_left same)

theorem chosenNamespace_blank (env : MemoryEnv ν) (userId : String) :
    chosenNamespace env userId "" = userNamespace userId := by
  simp [chosenNamespace, stripChars]

/-- The table without a namespace. -/
def Documents.without (db : Documents ν) (ns : String) : Documents ν :=
  db.delete fun d => d.nameSpace = ns

theorem inNamespace_without (db : Documents ν) (ns other : String) :
    (db.without ns).inNamespace other = if other = ns then [] else db.inNamespace other := by
  simp only [Documents.without, Documents.inNamespace, Documents.delete, Table.discard,
    List.filter_filter]
  split
  · next same =>
    subst same
    simp
  · next apart =>
    refine List.filter_congr fun d _ => ?_
    by_cases here : d.nameSpace = other
    · simp [here, apart]
    · simp [here]

/-! ## What psycopg refuses -/

section
variable (env : MemoryEnv ν) (outside : Outside ν)

theorem storeDocument_raises (n : Nat) (content : String) (embedding : ν) (ns : String)
    (metadata : Metadata) :
    ∃ e, ∀ db : Documents ν,
      storeDocument env outside n content embedding ns metadata db = .error e := by
  obtain ⟨e, raises⟩ := connected_refused env outside
    (show refusal .execute
      [.tuple [.text content, .vector embedding, .text ns, .dict metadata]] = some .dict from rfl)
  exact ⟨e, fun db => raises _⟩

/-- Nothing is stored, whatever comes from outside: the metadata is a dict. -/
theorem store_raises (n : Nat) (content ns : String) (metadata : Metadata) :
    ∃ e, ∀ db : Documents ν,
      store env outside n content ns metadata db = (db, .error e) := by
  cases embedded : outside.embed n content with
  | error e => exact ⟨e, fun db => by rw [store, embedded]⟩
  | ok embedding =>
    obtain ⟨e, raises⟩ := storeDocument_raises env outside n content embedding ns metadata
    exact ⟨e, fun db => by rw [store, embedded]; simp only [raises]⟩

theorem storeChunks_nothing (ns : String) (base : Metadata) (count i : Nat)
    (chunks : List String) (db : Documents ν) :
    storeChunks env outside ns base count i chunks db = (db, []) := by
  induction chunks generalizing i with
  | nil => rfl
  | cons chunk rest ih =>
    obtain ⟨e, raises⟩ := store_raises env outside i chunk ns (chunkMeta base i count)
    rw [storeChunks, raises]
    exact ih (i + 1)

theorem stats_raises (n : Nat) (ns : String) :
    ∃ e, ∀ db : Documents ν, stats env outside n ns db = .error e := by
  obtain ⟨e, raises⟩ := connected_refused env outside
    (show refusal .fetchrow [.text ns] = some (.attribute .fetchrow) from rfl)
  exact ⟨e, fun db => raises _⟩

theorem clearNamespace_raises (ns : String) :
    ∃ e, ∀ db : Documents ν, clearNamespace env outside ns db = (db, .error e) := by
  obtain ⟨e, raises⟩ := connected_refused env outside
    (show refusal .execute [.text ns] = some .sequence from rfl)
  exact ⟨e, fun db => by rw [clearNamespace, raises]⟩

theorem listRows_raises (ns : String) (limit offset : Int) :
    ∃ e, ∀ db : Documents ν, listRows env outside ns limit offset db = .error e := by
  obtain ⟨e, raises⟩ := connected_refused env outside
    (show refusal .fetch [.text ns, .int limit, .int offset] = some (.attribute .fetch) from rfl)
  exact ⟨e, fun db => by rw [listRows, raises]; rfl⟩

theorem deleteRow_raises (docId : Int) (ns : String) :
    ∃ e, ∀ db : Documents ν, deleteRow env outside docId ns db = .error e := by
  obtain ⟨e, raises⟩ := connected_refused env outside
    (show refusal .execute [.int docId, .text ns] = some .arguments from rfl)
  exact ⟨e, fun db => raises _⟩

end

/-! ## The two kinds of requests -/

/-- The rows of a namespace that a search with an embedding asks for. -/
def hitsIn (env : MemoryEnv ν) (outside : Outside ν) (req : SearchRequest) (embedding : ν)
    (ns : String) (db : Documents ν) : List SearchHit :=
  (similaritySearch env (outside.now 0) embedding req.limit req.minSimilarity
    (db.inNamespace ns)).map fun h =>
      { h with content := (Security.sanitizeOutput env.unicode h.content).1 }

/-- A search that gets to the table, with the embedding of its query. -/
structure MemoryRequest.Queries (env : MemoryEnv ν) (r : MemoryRequest ν) (req : SearchRequest)
    (embedding : ν) : Prop where
  call : r.call = .search req
  enabled : env.enabled = true
  embedded : r.outside.embed 0 req.query = .ok embedding
  answered : r.outside.fails 0 = none

namespace MemoryRequest.Queries

variable {env : MemoryEnv ν} {r : MemoryRequest ν} {req req' : SearchRequest}
  {embedding embedding' : ν}

theorem unique (h : r.Queries env req embedding) (h' : r.Queries env req' embedding') :
    req = req' ∧ embedding = embedding' := by
  have same : req = req' := MemoryCall.search.inj (h.call.symm.trans h'.call)
  subst same
  exact ⟨rfl, Except.ok.inj (h.embedded.symm.trans h'.embedded)⟩

theorem step (h : r.Queries env req embedding) (db : Documents ν) :
    memoryStep env db r =
      (db, .ok (.found (chosenNamespace env r.userId req.nameSpace)
        (hitsIn env r.outside req embedding (chosenNamespace env r.userId req.nameSpace)
          db))) := by
  obtain ⟨userId, call, outside⟩ := r
  obtain ⟨rfl, on, (embedded : outside.embed 0 req.query = .ok embedding),
    (answered : outside.fails 0 = none)⟩ := h
  simp [memoryStep, searchMemory, on, search_of_embedded env outside embedded, statement,
    answered, Except.map, replied, hitsIn]

end MemoryRequest.Queries

/-- A search that does not get to the table raises. -/
theorem searchMemory_blind (env : MemoryEnv ν) (userId : String) (outside : Outside ν)
    (req : SearchRequest)
    (no : ∀ embedding, ¬ MemoryRequest.Queries env ⟨userId, .search req, outside⟩ req embedding) :
    ∃ reply, ∀ db : Documents ν, searchMemory env userId outside req db = reply := by
  cases on : env.enabled with
  | false => exact ⟨_, fun db => by simp only [searchMemory, on]; rfl⟩
  | true =>
    cases embedded : outside.embed 0 req.query with
    | error e => exact ⟨_, fun db => by simp only [searchMemory, on, search, embedded]; rfl⟩
    | ok embedding =>
      cases answered : outside.fails 0 with
      | none => exact absurd ⟨rfl, on, embedded, answered⟩ (no embedding)
      | some e =>
        exact ⟨_, fun db => by
          simp only [searchMemory, on, search_of_embedded env outside embedded, statement, answered]
          rfl⟩

/-- A request that does not get to the table gives one reply, whatever the table holds. -/
theorem memoryStep_blind (env : MemoryEnv ν) (r : MemoryRequest ν)
    (no : ∀ req embedding, ¬ r.Queries env req embedding) :
    ∃ reply, ∀ db : Documents ν, memoryStep env db r = (db, reply) := by
  obtain ⟨userId, call, outside⟩ := r
  cases call with
  | ingest req =>
    obtain ⟨e, raises⟩ := store_raises env outside 0 req.content
      (chosenNamespace env userId req.nameSpace) req.metadata
    cases on : env.enabled with
    | false => exact ⟨_, fun db => by simp only [memoryStep, memoryIngestDocument, on]; rfl⟩
    | true => exact ⟨_, fun db => by simp only [memoryStep, memoryIngestDocument, on, raises]; rfl⟩
  | search req =>
    obtain ⟨reply, blind⟩ := searchMemory_blind env userId outside req (no req)
    exact ⟨reply, fun db => congrArg (db, ·) (blind db)⟩
  | clear =>
    obtain ⟨e, raises⟩ := clearNamespace_raises env outside (userNamespace userId)
    cases on : env.enabled with
    | false => exact ⟨_, fun db => by simp only [memoryStep, clearMemory, on]; rfl⟩
    | true => exact ⟨_, fun db => by simp only [memoryStep, clearMemory, on, raises]; rfl⟩
  | stats =>
    obtain ⟨e, raises⟩ := stats_raises env outside 0 (userNamespace userId)
    exact ⟨_, fun db => by simp only [memoryStep, memoryStats, raises]; rfl⟩
  | list limit offset =>
    obtain ⟨e, raises⟩ := listRows_raises env outside (userNamespace userId) limit offset
    cases on : env.enabled with
    | false => exact ⟨_, fun db => by simp only [memoryStep, listDocuments, on]; rfl⟩
    | true => exact ⟨_, fun db => by simp only [memoryStep, listDocuments, on, raises]; rfl⟩
  | ingestText req =>
    cases on : env.enabled with
    | false => exact ⟨_, fun db => by simp only [memoryStep, documentsIngestDocument, on]; rfl⟩
    | true =>
      exact ⟨_, fun db => by
        simp only [memoryStep, documentsIngestDocument, on, ingestText, storeChunks_nothing]
        rfl⟩
  | delete docId =>
    obtain ⟨e, raises⟩ := deleteRow_raises env outside docId (userNamespace userId)
    cases on : env.enabled with
    | false => exact ⟨_, fun db => by simp only [memoryStep, deleteDocument, on]; rfl⟩
    | true => exact ⟨_, fun db => by simp only [memoryStep, deleteDocument, on, raises]; rfl⟩

/-- What a request does: it is a query, or it does not look at the table. -/
theorem memoryStep_cases (env : MemoryEnv ν) (r : MemoryRequest ν) :
    (∃ req embedding, r.Queries env req embedding) ∨
      (∀ req embedding, ¬ r.Queries env req embedding) ∧
        ∃ reply, ∀ db : Documents ν, memoryStep env db r = (db, reply) := by
  by_cases queries : ∃ req embedding, r.Queries env req embedding
  · exact .inl queries
  · push Not at queries
    exact .inr ⟨queries, memoryStep_blind env r queries⟩

theorem memoryStep_keeps (env : MemoryEnv ν) (db : Documents ν) (r : MemoryRequest ν) :
    (memoryStep env db r).1 = db := by
  rcases memoryStep_cases env r with ⟨req, embedding, queries⟩ | ⟨-, reply, blind⟩
  · rw [queries.step]
  · rw [blind]

/-- The table gives a request documents of a namespace: it is a search that names the
namespace, and a row of it is as similar to the query as the search asks. -/
def MemoryRequest.Matches (env : MemoryEnv ν) (db : Documents ν) (r : MemoryRequest ν)
    (ns : String) : Prop :=
  ∃ req embedding, r.Queries env req embedding ∧
    chosenNamespace env r.userId req.nameSpace = ns ∧
    ∃ d ∈ db.inNamespace ns, (req.minSimilarity : Float8) ≤ env.similarity d.embedding embedding

theorem hitsIn_eq_nil_iff {env : MemoryEnv ν} {outside : Outside ν} {req : SearchRequest}
    {embedding : ν} {ns : String} {db : Documents ν} :
    hitsIn env outside req embedding ns db = [] ↔
      ∀ d ∈ db.inNamespace ns,
        ¬ (req.minSimilarity : Float8) ≤ env.similarity d.embedding embedding := by
  have some_rows : req.limit ≠ 0 := by
    have := req.valid_limit.1
    omega
  have sorted_nil {hits : List SearchHit} :
      hits.insertionSort (fun a b => b.decayedScore ≤ a.decayedScore) = [] ↔ hits = [] := by
    rw [← List.length_eq_zero_iff, List.length_insertionSort, List.length_eq_zero_iff]
  simp only [hitsIn, similaritySearch, List.map_eq_nil_iff, List.take_eq_nil_iff, some_rows,
    false_or, sorted_nil, List.filter_eq_nil_iff, List.forall_mem_map, decide_eq_true_eq]

theorem hitsIn_without (env : MemoryEnv ν) (outside : Outside ν) (req : SearchRequest)
    (embedding : ν) (ns other : String) (db : Documents ν) :
    hitsIn env outside req embedding other (db.without ns) =
      if other = ns then [] else hitsIn env outside req embedding other db := by
  split
  · next same =>
    refine hitsIn_eq_nil_iff.mpr fun d hd => ?_
    rw [inNamespace_without, if_pos same] at hd
    exact absurd hd List.not_mem_nil
  · next apart => rw [hitsIn, inNamespace_without, if_neg apart, hitsIn]

/-- Taking a namespace out of the table changes the reply exactly if the request matches
documents there. -/
theorem reply_without_iff (env : MemoryEnv ν) (db : Documents ν) (r : MemoryRequest ν)
    (ns : String) :
    (memoryStep env (db.without ns) r).2 = (memoryStep env db r).2 ↔
      ¬ r.Matches env db ns := by
  rcases memoryStep_cases env r with ⟨req, embedding, queries⟩ | ⟨none, reply, blind⟩
  · rw [queries.step, queries.step]
    have matches_iff : r.Matches env db ns ↔
        chosenNamespace env r.userId req.nameSpace = ns ∧
          hitsIn env r.outside req embedding ns db ≠ [] := by
      rw [ne_eq, hitsIn_eq_nil_iff]
      push Not
      constructor
      · rintro ⟨req', embedding', queries', named, similar⟩
        obtain ⟨rfl, rfl⟩ := queries.unique queries'
        exact ⟨named, similar⟩
      · rintro ⟨named, similar⟩
        exact ⟨req, embedding, queries, named, similar⟩
    rw [matches_iff, hitsIn_without]
    by_cases named : chosenNamespace env r.userId req.nameSpace = ns
    · rw [if_pos named, named]
      simp only [Except.ok.injEq, MemoryAnswer.found.injEq, true_and, ne_eq, not_not]
      exact eq_comm
    · rw [if_neg named]
      exact iff_of_true rfl fun both => named both.1
  · rw [blind, blind]
    refine iff_of_true rfl ?_
    rintro ⟨req, embedding, queries, -⟩
    exact none req embedding queries

/-! ## Histories -/

section
variable (env : MemoryEnv ν)

def ofUser (u : String) (r : MemoryRequest ν) : Bool := r.userId = u

/-- The replies to the requests of a user, in order. -/
def repliesTo (u : String) (db : Documents ν) (past : List (MemoryRequest ν)) :
    List MemoryReply :=
  (((memory env).run db past).filter fun x => ofUser u x.input).map (·.label)

/-- The users are isolated in a history of requests on a table. -/
structure UsersIsolated (db : Documents ν) (past : List (MemoryRequest ν)) : Prop where
  /-- Whatever the others request instead, a user gets the same replies. -/
  unaffected : ∀ u past', past.filter (ofUser u) = past'.filter (ofUser u) →
    repliesTo env u db past = repliesTo env u db past'
  /-- A request leaves the documents of the other users as they are. -/
  unwritten : ∀ x ∈ (memory env).run db past, ∀ v, v ≠ x.input.userId →
    x.after.inNamespace (userNamespace v) = x.before.inNamespace (userNamespace v)
  /-- The reply would be the same without the documents of another user. -/
  unread : ∀ x ∈ (memory env).run db past, ∀ v, v ≠ x.input.userId →
    (memoryStep env (x.before.without (userNamespace v)) x.input).2 = x.label

/-- Every request is answered, from the table that was there at first. -/
theorem run_memory (db : Documents ν) (past : List (MemoryRequest ν)) :
    (memory env).run db past =
      past.map fun r => ⟨db, r, (memoryStep env db r).2, db⟩ := by
  induction past with
  | nil => rfl
  | cons r past ih =>
    have taken : (memory env).step db r = some (db, (memoryStep env db r).2) :=
      congrArg some (Prod.ext (memoryStep_keeps env db r) rfl)
    rw [Machine.run_cons_of_step taken, ih, List.map_cons]

theorem repliesTo_eq (u : String) (db : Documents ν) (past : List (MemoryRequest ν)) :
    repliesTo env u db past =
      (past.filter (ofUser u)).map fun r => (memoryStep env db r).2 := by
  rw [repliesTo, run_memory, List.filter_map, List.map_map]
  rfl

theorem isolated_of_unmatched {db : Documents ν} {past : List (MemoryRequest ν)}
    (unmatched : ∀ r ∈ past, ∀ v, v ≠ r.userId → ¬ r.Matches env db (userNamespace v)) :
    UsersIsolated env db past := by
  have entries {x} (hx : x ∈ (memory env).run db past) :
      ∃ r ∈ past, ⟨db, r, (memoryStep env db r).2, db⟩ = x := by
    rw [run_memory] at hx
    exact List.mem_map.mp hx
  refine ⟨fun u past' same => ?_, fun x hx v _ => ?_, fun x hx v other => ?_⟩
  · rw [repliesTo_eq, repliesTo_eq, same]
  · obtain ⟨r, -, rfl⟩ := entries hx
    rfl
  · obtain ⟨r, hr, rfl⟩ := entries hx
    exact (reply_without_iff env db r _).mpr (unmatched r hr v other)

/-- Where every search leaves its namespace blank, the users are isolated. -/
theorem isolated_of_blank {db : Documents ν} {past : List (MemoryRequest ν)}
    (blank : ∀ r ∈ past, ∀ req, r.call = .search req → req.nameSpace = "") :
    UsersIsolated env db past := by
  refine isolated_of_unmatched env fun r hr v other => ?_
  rintro ⟨req, embedding, queries, named, -⟩
  rw [blank r hr req queries.call, chosenNamespace_blank] at named
  exact other (userNamespace_inj named).symm

end

/-! ## Samples -/

/-- One-valued embeddings, so that every text is like every other. -/
def sampleMemory : MemoryEnv Unit where
  unicode := .ascii
  enabled := true
  maxDocsPerNamespace := 1000
  jsonb := id
  similarity _ _ := ((1 : ℚ) : Float8)
  decayed similarity _ := similarity
  isoformat := toString
  refused _ := "refused"

/-- Nothing fails, at a time. -/
def allUp (now : Int) : Outside Unit := ⟨fun _ _ => .ok (), fun _ => none, fun _ => now⟩

def looksIn (userId ns : String) (now : Int) : MemoryRequest Unit :=
  ⟨userId, .search { query := "note", nameSpace := ns, minSimilarity := 0
                     valid_query := by decide, valid_limit := by decide
                     valid_similarity := by decide }, allUp now⟩

/-- A table that was filled before: bob has a note. -/
def bobsNote : Documents Unit := Documents.empty.insert 0 "A note" () "user:bob" []

end LegionForge.Gateway
