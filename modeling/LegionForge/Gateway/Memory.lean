import LegionForge.Gateway.Chunking
import LegionForge.Gateway.Submit
import LegionForge.Lib.JsonText
import LegionForge.Lib.Machine
import LegionForge.Lib.Table
import Mathlib.Algebra.Order.Ring.Rat
import Mathlib.Data.List.Sort
import Mathlib.Order.WithBot

/-!
# The documents and the requests for them

The four endpoints under `/memory` and the three under `/documents`, over the one table
`documents`. Storing and searching take a namespace from the body where it is not blank;
everything else works in the namespace of the caller. The table hands out the ids of all
namespaces from one sequence.

What the embedding server and the statements on the database come back with belongs to the
request, since none of it is decided here. What the driver takes is decided here: a
connection of the pool is one of psycopg's, most calls are made as asyncpg takes them, and
one binds a dict. `refusal` says which of them psycopg sends.
-/

namespace LegionForge.Gateway

open JsonText (Json)
open Security

/-! ## The table -/

/-- The members of a JSON object. -/
abbrev Metadata := List (String × Json)

/-- A row of `documents`; the time in microseconds. -/
structure Document (ν : Type) where
  id : Nat
  createdAt : Int
  nameSpace : String
  content : String
  metadata : Metadata
  embedding : ν

variable {ν : Type}

/-- The rows, the last inserted first, and the sequence behind their ids. -/
structure Documents (ν : Type) where
  table : Table (Document.id (ν := ν))
  nextId : Nat
  drawn : ∀ d ∈ table.rows, d.id < nextId

namespace Documents

def empty : Documents ν := ⟨.empty, 1, fun _ h => absurd h List.not_mem_nil⟩

/-- `WHERE namespace = ns` -/
def inNamespace (db : Documents ν) (ns : String) : List (Document ν) :=
  db.table.rows.filter fun d => d.nameSpace = ns

/-- `INSERT`, with the next id of the sequence -/
def insert (db : Documents ν) (now : Int) (content : String) (embedding : ν) (ns : String)
    (metadata : Metadata) : Documents ν where
  table :=
    { rows := ⟨db.nextId, now, ns, content, metadata, embedding⟩ :: db.table.rows
      keys := List.nodup_cons.mpr ⟨fun taken => by
        obtain ⟨d, hd, same⟩ := List.mem_map.mp taken
        exact absurd (db.drawn d hd) (by rw [same]; exact Nat.lt_irrefl _), db.table.keys⟩ }
  nextId := db.nextId + 1
  drawn d hd := by
    rcases List.mem_cons.mp hd with rfl | old
    · exact Nat.lt_succ_self _
    · exact Nat.lt_succ_of_lt (db.drawn d old)

/-- `DELETE`; the sequence stays. -/
def delete (db : Documents ν) (gone : Document ν → Bool) : Documents ν where
  table := db.table.discard gone
  nextId := db.nextId
  drawn d hd := db.drawn d (List.mem_filter.mp hd).1

end Documents

/-- `ORDER BY created_at DESC` -/
def newestFirst (docs : List (Document ν)) : List (Document ν) :=
  docs.insertionSort fun a b => b.createdAt ≤ a.createdAt

/-! ## The driver -/

inductive ConnectionMethod where
  | execute
  | fetch
  | fetchrow
  deriving DecidableEq

/-- A value for a placeholder. -/
inductive SqlValue (ν : Type) where
  | text (s : String)
  | int (n : Int)
  | float (q : ℚ)
  | vector (v : ν)
  | dict (ms : Metadata)

def SqlValue.isDict : SqlValue ν → Bool
  | .dict _ => true
  | .text _ | .int _ | .float _ | .vector _ => false

/-- What stands behind the query in a call. -/
inductive SqlArgument (ν : Type) where
  | tuple (values : List (SqlValue ν))
  | text (s : String)
  | int (n : Int)

/-- Why psycopg does not send a statement. -/
inductive Refusal where
  /-- `AsyncConnection` has no such method. -/
  | attribute (method : ConnectionMethod)
  /-- `execute` takes one argument behind the query. -/
  | arguments
  /-- That argument is a sequence. -/
  | sequence
  /-- No dumper is registered for a dict. -/
  | dict

def refusal : ConnectionMethod → List (SqlArgument ν) → Option Refusal
  | .fetch, _ => some (.attribute .fetch)
  | .fetchrow, _ => some (.attribute .fetchrow)
  | .execute, [] => none
  | .execute, [.tuple values] => if values.any SqlValue.isDict then some .dict else none
  | .execute, [.text _] | .execute, [.int _] => some .sequence
  | .execute, _ :: _ :: _ => some .arguments

/-! ## What comes from outside -/

/-- A `float8`; the top is NaN, which sorts above every number. -/
abbrev Float8 := WithTop ℚ

structure MemoryEnv (ν : Type) where
  unicode : Unicode
  /-- `settings.agent_memory.enabled` -/
  enabled : Bool
  maxDocsPerNamespace : Int
  /-- What a JSONB column gives back for what is written to it -/
  jsonb : Metadata → Metadata
  /-- `1 - (embedding <=> query)` -/
  similarity : ν → ν → Float8
  /-- The similarity times `EXP` of the age of the document -/
  decayed : Float8 → Int → Float8
  /-- `datetime.isoformat` of a timestamp read back -/
  isoformat : Int → String
  /-- The text of what psycopg raises -/
  refused : Refusal → String

/-- How a request fares with the embedding server and the database. -/
structure Outside (ν : Type) where
  /-- The answer to the `n`-th text, or the exception -/
  embed : Nat → String → Except String ν
  /-- The exception of the `n`-th statement, if it raises one -/
  fails : Nat → Option String
  /-- `NOW()` in the `n`-th statement -/
  now : Nat → Int

/-! ## `MemoryStore` -/

def userNamespace (userId : String) : String := "user:" ++ userId

/-- `MemoryStore.stats` -/
structure NamespaceStats where
  nameSpace : String
  total : Nat
  oldest : Option String
  newest : Option String
  deriving DecidableEq

/-- A row of `similarity_search` -/
structure SearchHit where
  id : Nat
  content : String
  metadata : Metadata
  createdAt : Int
  similarity : Float8
  decayedScore : Float8

section
variable (env : MemoryEnv ν) (outside : Outside ν)

/-- Where a statement raises, its result is the exception. -/
def statement {α : Type} (n : Nat) (result : α) : Except String α :=
  match outside.fails n with
  | some e => .error e
  | none => .ok result

/-- A statement that goes through a connection. -/
def connected {α : Type} (n : Nat) (method : ConnectionMethod)
    (arguments : List (SqlArgument ν)) (result : α) : Except String α :=
  match statement outside n result, refusal method arguments with
  | .ok _, some r => .error (env.refused r)
  | answer, _ => answer

theorem connected_refused {α : Type} {n : Nat} {method : ConnectionMethod}
    {arguments : List (SqlArgument ν)} {r : Refusal} (refused : refusal method arguments = some r) :
    ∃ e, ∀ result : α, connected env outside n method arguments result = .error e := by
  cases raised : outside.fails n with
  | some e => exact ⟨e, fun result => by simp [connected, statement, raised]⟩
  | none => exact ⟨env.refused r, fun result => by simp [connected, statement, raised, refused]⟩

theorem connected_sent {α : Type} {n : Nat} {method : ConnectionMethod}
    {arguments : List (SqlArgument ν)} (sent : refusal method arguments = none) (result : α) :
    connected env outside n method arguments result = statement outside n result := by
  rw [connected, sent]
  cases statement outside n result with
  | error e => rfl
  | ok a => rfl

def statsOf (ns : String) (docs : List (Document ν)) : NamespaceStats where
  nameSpace := ns
  total := docs.length
  oldest := ((docs.map (·.createdAt)).min?).map env.isoformat
  newest := ((docs.map (·.createdAt)).max?).map env.isoformat

def stats (n : Nat) (ns : String) (db : Documents ν) : Except String NamespaceStats :=
  connected env outside n .fetchrow [.text ns] (statsOf env ns (db.inNamespace ns))

/-- `prune`: all but the newest of the namespace go. -/
def prune (n : Nat) (ns : String) (keepLastN : Nat) (db : Documents ν) :
    Except String (Documents ν) :=
  let kept := ((newestFirst (db.inNamespace ns)).take keepLastN).map (·.id)
  connected env outside n .execute [.text ns, .int keepLastN]
    (db.delete fun d => d.nameSpace = ns && !kept.contains d.id)

/-- `_prune_if_needed` after the `n`-th insert of a request; it swallows what is raised. -/
def pruneIfNeeded (n : Nat) (ns : String) (db : Documents ν) : Documents ν :=
  match stats env outside (3 * n + 1) ns db with
  | .error _ => db
  | .ok s =>
    if (s.total : Int) ≤ env.maxDocsPerNamespace then db
    else
      match prune env outside (3 * n + 2) ns env.maxDocsPerNamespace.toNat db with
      | .error _ => db
      | .ok pruned => pruned

/-- `store_document`, which gives the id and leaves the table with the row -/
def storeDocument (n : Nat) (content : String) (embedding : ν) (ns : String)
    (metadata : Metadata) (db : Documents ν) : Except String (Documents ν × Nat) :=
  connected env outside (3 * n) .execute
    [.tuple [.text content, .vector embedding, .text ns, .dict metadata]]
    (db.insert (outside.now (3 * n)) content embedding ns (env.jsonb metadata), db.nextId)

/-- `MemoryStore.store` as the `n`-th of a request -/
def store (n : Nat) (content ns : String) (metadata : Metadata) (db : Documents ν) :
    Documents ν × Except String Nat :=
  match outside.embed n content with
  | .error e => (db, .error e)
  | .ok embedding =>
    match storeDocument env outside n content embedding ns metadata db with
    | .error e => (db, .error e)
    | .ok (stored, docId) =>
      if 0 < env.maxDocsPerNamespace then (pruneIfNeeded env outside n ns stored, .ok docId)
      else (stored, .ok docId)

/-- `similarity_search` with `temporal_decay`, which every search of a request asks for -/
def similaritySearch (now : Int) (query : ν) (limit : Nat) (minSimilarity : ℚ)
    (docs : List (Document ν)) : List SearchHit :=
  let hits := docs.map fun d =>
    let similarity := env.similarity d.embedding query
    { id := d.id, content := d.content, metadata := d.metadata, createdAt := d.createdAt
      similarity, decayedScore := env.decayed similarity (now - d.createdAt) : SearchHit }
  ((hits.filter fun h => (minSimilarity : Float8) ≤ h.similarity).insertionSort
    fun a b => b.decayedScore ≤ a.decayedScore).take limit

/-- `MemoryStore.search` -/
def search (query ns : String) (limit : Nat) (minSimilarity : ℚ) (db : Documents ν) :
    Except String (List SearchHit) :=
  match outside.embed 0 query with
  | .error e => .error e
  | .ok embedding =>
    (connected env outside 0 .execute
      [.tuple [.vector embedding, .vector embedding, .text ns, .vector embedding,
        .float minSimilarity, .int limit]]
      (similaritySearch env (outside.now 0) embedding limit minSimilarity
        (db.inNamespace ns))).map fun hits =>
      hits.map fun h => { h with content := (sanitizeOutput env.unicode h.content).1 }

/-- Vectors, a text and numbers are what psycopg takes. -/
theorem search_of_embedded {query : String} {embedding : ν}
    (embedded : outside.embed 0 query = .ok embedding) (ns : String) (limit : Nat)
    (minSimilarity : ℚ) (db : Documents ν) :
    search env outside query ns limit minSimilarity db =
      (statement outside 0 (similaritySearch env (outside.now 0) embedding limit minSimilarity
        (db.inNamespace ns))).map fun hits =>
          hits.map fun h => { h with content := (sanitizeOutput env.unicode h.content).1 } := by
  have sent : refusal .execute
      [.tuple [.vector embedding, .vector embedding, .text ns, .vector embedding,
        .float minSimilarity, .int limit]] = none := rfl
  simp only [search, embedded, connected_sent env outside sent]

/-- `clear_namespace`, with the number of rows -/
def clearNamespace (ns : String) (db : Documents ν) : Documents ν × Except String Nat :=
  match connected env outside 0 .execute [.text ns] (db.delete fun d => d.nameSpace = ns) with
  | .error e => (db, .error e)
  | .ok cleared => (cleared, .ok (db.inNamespace ns).length)

/-! ## `DocumentIngestor` -/

/-- `meta[key] = value` on a dict -/
def setMember (ms : Metadata) (key : String) (value : Json) : Metadata :=
  if ms.any (·.1 = key) then ms.map fun m => if m.1 = key then (key, value) else m
  else ms ++ [(key, value)]

def baseMeta (metadata : Metadata) (source : String) : Metadata :=
  if source = "" then metadata else setMember metadata "source" (.str source)

def natJson (n : Nat) : Json :=
  .num
    { text := Nat.toDigits 10 n
      nonempty := Nat.toDigits_ne_nil
      chars := fun c hc => by
        simp [JsonText.tokenChar, Nat.isDigit_of_mem_toDigits (by decide) (by decide) hc] }

def chunkMeta (base : Metadata) (i count : Nat) : Metadata :=
  setMember (setMember base "chunk_index" (natJson i)) "chunk_count" (natJson count)

/-- The chunks from the `i`-th on; one that cannot be stored is left out. -/
def storeChunks (ns : String) (base : Metadata) (count : Nat) :
    Nat → List String → Documents ν → Documents ν × List Nat
  | _, [], db => (db, [])
  | i, chunk :: rest, db =>
    match store env outside i chunk ns (chunkMeta base i count) db with
    | (db, .error _) => storeChunks ns base count (i + 1) rest db
    | (db, .ok docId) =>
      let (db, docIds) := storeChunks ns base count (i + 1) rest db
      (db, docId :: docIds)

/-- `ingest_text` on the chunks of a text -/
def ingestText (chunks : List String) (ns : String) (metadata : Metadata) (source : String)
    (db : Documents ν) : Documents ν × List Nat :=
  storeChunks env outside ns (baseMeta metadata source) chunks.length 0 chunks db

structure DocumentEntry where
  id : Nat
  nameSpace : String
  contentPreview : String
  metadata : Metadata
  createdAt : String

/-- The rows of `list_documents`; a negative bound is an error of the database. -/
def listRows (ns : String) (limit offset : Int) (db : Documents ν) :
    Except String (List DocumentEntry) := do
  connected env outside 0 .fetch [.text ns, .int limit, .int offset] ()
  if limit < 0 then .error "LIMIT must not be negative"
  else if offset < 0 then .error "OFFSET must not be negative"
  else
    .ok ((((newestFirst (db.inNamespace ns)).drop offset.toNat).take limit.toNat).map fun d =>
      { id := d.id
        nameSpace := d.nameSpace
        contentPreview := String.ofList (d.content.toList.take 200)
        metadata := d.metadata
        createdAt := env.isoformat d.createdAt })

/-- `delete_document` of the ingestor: the id has to lie in the namespace. -/
def deleteRow (docId : Int) (ns : String) (db : Documents ν) :
    Except String (Documents ν × Bool) :=
  connected env outside 0 .execute [.int docId, .text ns]
    (db.delete fun d => (d.id : Int) = docId && d.nameSpace = ns,
      (db.inNamespace ns).any fun d => (d.id : Int) = docId)

end

/-! ## The endpoints -/

structure IngestRequest where
  content : String
  nameSpace : String := ""
  metadata : Metadata := []
  valid_content : 1 ≤ content.length ∧ content.length ≤ 32768

structure SearchRequest where
  query : String
  nameSpace : String := ""
  limit : Nat := 5
  minSimilarity : ℚ := 7 / 10
  valid_query : 1 ≤ query.length ∧ query.length ≤ 4096
  valid_limit : 1 ≤ limit ∧ limit ≤ 50
  valid_similarity : 0 ≤ minSimilarity ∧ minSimilarity ≤ 1

structure IngestTextRequest where
  content : String
  nameSpace : String := ""
  metadata : Metadata := []
  chunkSize : Nat := 512
  overlap : Nat := 64
  source : String := ""
  valid_content : 1 ≤ content.length ∧ content.length ≤ 1048576
  valid_chunkSize : 64 ≤ chunkSize ∧ chunkSize ≤ 2048
  valid_overlap : overlap ≤ 512

inductive MemoryCall where
  | ingest (req : IngestRequest)
  | search (req : SearchRequest)
  | clear
  | stats
  | list (limit offset : Int)
  | ingestText (req : IngestTextRequest)
  | delete (docId : Int)

/-- A request of a logged-in user, and how it fares outside. -/
structure MemoryRequest (ν : Type) where
  userId : String
  call : MemoryCall
  outside : Outside ν

/-- What an endpoint returns; the counts beside a list are its length. -/
inductive MemoryAnswer where
  | stored (id : Nat) (ns : String)
  | found (ns : String) (results : List SearchHit)
  | cleared (ns : String) (deleted : Nat)
  | stats (stats : NamespaceStats)
  | listed (ns : String) (documents : List DocumentEntry)
  | ingested (ns : String) (docIds : List Nat)
  | deleted (id : Int) (ns : String)

abbrev MemoryReply := Except HttpError MemoryAnswer

def memoryDisabled : HttpError :=
  ⟨503, "Agent memory is disabled. " ++
    "Set agent_memory.enabled: true in your hardware profile to activate.", none⟩

def documentsDisabled : HttpError :=
  ⟨503, "Agent memory is disabled. Set agent_memory.enabled: true in your hardware profile.",
    none⟩

/-- The reply to what a store gave back or raised. -/
def replied {α : Type} (context : String) (answer : α → MemoryAnswer) :
    Except String α → MemoryReply
  | .error e => .error ⟨500, context ++ e, none⟩
  | .ok a => .ok (answer a)

section
variable (env : MemoryEnv ν) (userId : String) (outside : Outside ν)

/-- `req.namespace.strip() or MemoryStore.user_namespace(user["user_id"])` -/
def chosenNamespace (nameSpace : String) : String :=
  let stripped := String.ofList (stripChars env.unicode.space nameSpace.toList)
  if stripped = "" then userNamespace userId else stripped

/-- `ingest_document` under `/memory` -/
def memoryIngestDocument (req : IngestRequest) (db : Documents ν) :
    Documents ν × MemoryReply :=
  if !env.enabled then (db, .error memoryDisabled)
  else
    let ns := chosenNamespace env userId req.nameSpace
    let (db, docId) := store env outside 0 req.content ns req.metadata db
    (db, replied "Ingest failed: " (fun id => .stored id ns) docId)

def searchMemory (req : SearchRequest) (db : Documents ν) : MemoryReply :=
  if !env.enabled then .error memoryDisabled
  else
    let ns := chosenNamespace env userId req.nameSpace
    replied "Search failed: " (.found ns)
      (search env outside req.query ns req.limit req.minSimilarity db)

def clearMemory (db : Documents ν) : Documents ν × MemoryReply :=
  if !env.enabled then (db, .error memoryDisabled)
  else
    let ns := userNamespace userId
    let (db, deleted) := clearNamespace env outside ns db
    (db, replied "Clear failed: " (.cleared ns) deleted)

/-- `memory_stats`, the one that does not ask whether the memory is on -/
def memoryStats (db : Documents ν) : MemoryReply :=
  let ns := userNamespace userId
  replied "Stats failed: " .stats (stats env outside 0 ns db)

def listDocuments (limit offset : Int) (db : Documents ν) : MemoryReply :=
  if !env.enabled then .error documentsDisabled
  else
    let ns := userNamespace userId
    replied "" (.listed ns) (listRows env outside ns limit offset db)

/-- `ingest_document` under `/documents` -/
def documentsIngestDocument (req : IngestTextRequest) (db : Documents ν) :
    Documents ν × MemoryReply :=
  if !env.enabled then (db, .error documentsDisabled)
  else
    let ns := chosenNamespace env userId req.nameSpace
    let (db, docIds) := ingestText env outside
      (chunkText env.unicode.space req.content req.chunkSize req.overlap) ns req.metadata
      req.source db
    (db, .ok (.ingested ns docIds))

def deleteDocument (docId : Int) (db : Documents ν) : Documents ν × MemoryReply :=
  if !env.enabled then (db, .error documentsDisabled)
  else
    let ns := userNamespace userId
    match deleteRow env outside docId ns db with
    | .error e => (db, .error ⟨500, e, none⟩)
    | .ok (db, deleted) =>
      if deleted then (db, .ok (.deleted docId ns))
      else (db, .error ⟨404, s!"Document {docId} not found in namespace '{ns}'", none⟩)

end

/-- One request. -/
def memoryStep (env : MemoryEnv ν) (db : Documents ν) (r : MemoryRequest ν) :
    Documents ν × MemoryReply :=
  match r.call with
  | .ingest req => memoryIngestDocument env r.userId r.outside req db
  | .search req => (db, searchMemory env r.userId r.outside req db)
  | .clear => clearMemory env r.userId r.outside db
  | .stats => (db, memoryStats env r.userId r.outside db)
  | .list limit offset => (db, listDocuments env r.userId r.outside limit offset db)
  | .ingestText req => documentsIngestDocument env r.userId r.outside req db
  | .delete docId => deleteDocument env r.userId r.outside docId db

/-- The histories of requests of all users. -/
def memory (env : MemoryEnv ν) : Machine (Documents ν) (MemoryRequest ν) MemoryReply where
  step db r := some (memoryStep env db r)

end LegionForge.Gateway
