import LegionForge.Audit.Row
import LegionForge.Lib.HashChain

/-!
# The audit log: append, verify, prune

The two tables of the audit trail and the three operations on them. A table is
the list of its rows in no particular order; every query that says `ORDER BY`
sorts it. `verifyRows_intact_iff` is what the walk of the verifier amounts to:
the rows are linked from the hash it starts with, and every row has the hash of
its own text.
-/

namespace LegionForge.Audit

open HashChain (Linked)

structure Anchor where
  prunedAt : Instant
  retentionDays : Int
  rowsDeleted : Nat
  lastSeqKept : Int
  boundaryHash : String
  genesisHash : String

/-- `audit_log` and `audit_anchors`; `nextSeq` is the state of the sequence
behind `audit_log.seq`. -/
structure AuditDb where
  rows : List Row
  anchors : List Anchor
  nextSeq : Int

def AuditDb.empty : AuditDb := ⟨[], [], 1⟩

/-- `ORDER BY seq ASC` -/
def bySeq (rows : List Row) : List Row :=
  rows.insertionSort fun r s => r.seq ≤ s.seq

/-- `ORDER BY seq DESC LIMIT 1` -/
def lastRow (rows : List Row) : Option Row := (bySeq rows).getLast?

/-- What an operation raises, by where it comes from. -/
inductive AuditError where
  /-- `json.dumps` on keys it cannot sort, `json.loads` on no string, a tuple
  indexed by a column name -/
  | typeError
  | jsonDecodeError
  /-- the driver or PostgreSQL refuses a value -/
  | dataError
  /-- `chk_audit_payload_size` -/
  | checkViolation
  deriving DecidableEq

/-- The arguments of one call to `append_audit_log`; the payload is a dict. -/
structure AppendCall where
  eventType : String
  agentId : Option String
  payload : List (PyKey × PyVal)

def AppendCall.value (call : AppendCall) : PyVal := .dict call.payload

section

variable (P : Platform)

/-! ## `append_audit_log` -/

/-- A text column cannot hold a null character. -/
def AppendCall.hasNul (call : AppendCall) : Bool :=
  call.eventType.toList.contains '\x00' ||
    (call.agentId.getD "").toList.contains '\x00'

/-- Why the row is not inserted, if it is not. -/
def insertError (call : AppendCall) : Option AuditError :=
  if (call.value.dumpable) = false then some .typeError
  else if call.hasNul then some .dataError
  else
    match P.jsonbOctets (call.value.readBack P.floatVal) with
    | none => some .dataError
    | some octets => if 8192 < octets then some .checkViolation else none

/-- The row a call inserts after a row with hash `prev`: what the three
statements leave, with the timestamp as the inserting session reads it. -/
def insertedRow (tz : SessionTz) (now : Instant) (call : AppendCall)
    (seq : Int) (prev : String) : Row where
  seq := seq
  ts := some now
  eventType := call.eventType
  agentId := call.agentId
  payload := call.value.readBack P.floatVal
  prevHash := prev
  rowHash := (computeAuditRowHash P seq (isoformat now (tz now)) call.eventType
    call.agentId call.value prev).getD "PENDING"

/-- The hash the next row has to follow. -/
def prevHashOf (rows : List Row) : String :=
  match lastRow rows with
  | some last => last.rowHash
  | none => auditLogGenesis P

def appendAuditLog (tz : SessionTz) (now : Instant) (call : AppendCall)
    (db : AuditDb) : Except AuditError Int × AuditDb :=
  let prev := prevHashOf P db.rows
  match insertError P call with
  | some .checkViolation =>
      -- The sequence had already been advanced for the refused row.
      (.error .checkViolation, { db with nextSeq := db.nextSeq + 1 })
  | some e => (.error e, db)
  | none =>
      (.ok db.nextSeq,
        { db with
          rows := db.rows ++ [insertedRow P tz now call db.nextSeq prev]
          nextSeq := db.nextSeq + 1 })

/-! ## `verify_audit_log_chain` -/

/-- `ORDER BY pruned_at DESC LIMIT 1`: of several anchors with the last time,
any of them. -/
def LatestAnchor (anchors : List Anchor) : Option Anchor → Prop
  | none => anchors = []
  | some a =>
      a ∈ anchors ∧ ∀ b ∈ anchors, b.prunedAt.micros ≤ a.prunedAt.micros

/-- `(chain_ok, verified_rows, error_message)` -/
abbrev VerifyResult := Bool × Nat × Option String

def hashPrefix (hash : String) : String := String.ofList (hash.toList.take 12)

def prevMismatch (seq : Int) (expected stored : String) : String :=
  "seq=" ++ String.ofList (intText seq) ++ " prev_hash mismatch (expected " ++
    hashPrefix expected ++ "..., got " ++ hashPrefix stored ++ "...)"

def rowMismatch (seq : Int) : String :=
  "seq=" ++ String.ofList (intText seq) ++
    " row_hash mismatch — row may have been tampered"

/-- What decoding the payload column raises where it gives no value. -/
def decodeError : PyVal → AuditError
  | .str _ => .jsonDecodeError
  | _ => .typeError

/-- The loop over the rows, from the hash the next one must follow and the
number of rows already verified. -/
def verifyRows (tz : SessionTz) :
    String → Nat → List Row → Except AuditError VerifyResult
  | _, n, [] => .ok (true, n, none)
  | expected, i, row :: rows =>
      match decodePayload P row.payload with
      | none => .error (decodeError row.payload)
      | some payload =>
          if row.prevHash ≠ expected then
            .ok (false, i, some (prevMismatch row.seq expected row.prevHash))
          else
            match computeAuditRowHash P row.seq (tsText tz row.ts) row.eventType
              row.agentId payload row.prevHash with
            | none => .error .typeError
            | some computed =>
                if computed ≠ row.rowHash then
                  .ok (false, i, some (rowMismatch row.seq))
                else verifyRows tz row.rowHash (i + 1) rows

/-- The rows the verifier walks, and the hash it starts from. -/
def retained (rows : List Row) : Option Anchor → List Row
  | some a => bySeq (rows.filter fun row => a.lastSeqKept ≤ row.seq)
  | none => bySeq rows

def chainStart : Option Anchor → String
  | some a => a.boundaryHash
  | none => auditLogGenesis P

def verifyAuditLogChain (tz : SessionTz) (rows : List Row)
    (anchor : Option Anchor) : Except AuditError VerifyResult :=
  verifyRows P tz (chainStart P anchor) 0 (retained rows anchor)

/-- The chain is reported intact, with every walked row counted. -/
def Verified (tz : SessionTz) (rows : List Row) (anchor : Option Anchor) : Prop :=
  verifyAuditLogChain P tz rows anchor =
    .ok (true, (retained rows anchor).length, none)

/-! ## `prune_audit_log` -/

/-- How the connection of `prune_audit_log` hands out rows. The source names no
row factory for it, and only rows that are dicts can be indexed by column. -/
inductive RowFactory where
  | tupleRow
  | dictRow

/-- The most recent row outside the retention window. -/
def lastToDelete (now : Instant) (retentionDays : Int) (rows : List Row) :
    Option Row :=
  (P.daysBefore now retentionDays).bind fun cutoff =>
    lastRow (rows.filter fun row => row.ts.any (·.micros < cutoff.micros))

/-- `ORDER BY pruned_at ASC LIMIT 1`. Which of several first anchors is taken
makes no difference: they all carry the same `genesis_hash`. -/
def earliestAnchor (anchors : List Anchor) : Option Anchor :=
  (anchors.insertionSort fun a b =>
    a.prunedAt.micros ≤ b.prunedAt.micros).head?

/-- The anchor written before the rows up to `last` are deleted. -/
def newAnchor (now : Instant) (retentionDays : Int) (last : Row) (db : AuditDb) :
    Anchor where
  prunedAt := now
  retentionDays := retentionDays
  rowsDeleted := (db.rows.filter fun row => row.seq ≤ last.seq).length
  lastSeqKept :=
    match (bySeq (db.rows.filter fun row => last.seq < row.seq)).head? with
    | some first => first.seq
    | none => last.seq + 1
  boundaryHash := last.rowHash
  genesisHash :=
    match earliestAnchor db.anchors with
    | some a => a.genesisHash
    | none =>
        match (bySeq db.rows).head? with
        | some first => first.rowHash
        | none => ""

/-- `make_interval(days := …)` takes an `int`. -/
def isInt4 (n : Int) : Bool := -2147483648 ≤ n && n < 2147483648

def pruneAuditLog (rf : RowFactory) (now : Instant) (retentionDays : Int)
    (db : AuditDb) : Except AuditError Nat × AuditDb :=
  if isInt4 retentionDays = false ∨ P.daysBefore now retentionDays = none then
    (.error .dataError, db)
  else
    match lastToDelete P now retentionDays db.rows with
    | none => (.ok 0, db)
    | some last =>
        match rf with
        | .tupleRow => (.error .typeError, db)
        | .dictRow =>
            (.ok (db.rows.filter fun row => row.seq ≤ last.seq).length,
              { db with
                anchors := db.anchors ++ [newAnchor now retentionDays last db]
                rows := db.rows.filter fun row => last.seq < row.seq })

/-! ## What the walk checks -/

theorem verifyRows_intact_iff (tz : SessionTz) {k : String} {n m : Nat}
    {rows : List Row} :
    verifyRows P tz k n rows = .ok (true, m, none) ↔
      m = n + rows.length ∧ Linked Row.prevHash Row.rowHash k rows ∧
        ∀ row ∈ rows, row.Authentic P tz := by
  induction rows generalizing k n with
  | nil => simp [verifyRows, Linked, eq_comm]
  | cons row rows ih =>
      rw [List.forall_mem_cons, Linked, List.length_cons, verifyRows]
      cases hp : decodePayload P row.payload with
      | none =>
          refine iff_of_false (by simp) ?_
          rintro ⟨-, -, h, -⟩
          simp [Row.Authentic, Row.recomputedHash, hp] at h
      | some payload =>
          have hauth : row.Authentic P tz ↔ computeAuditRowHash P row.seq
              (tsText tz row.ts) row.eventType row.agentId payload
              row.prevHash = some row.rowHash := by
            rw [Row.Authentic, Row.recomputedHash, hp]
            rfl
          rw [hauth]
          simp only
          split_ifs with hprev
          · refine iff_of_false (by simp) ?_
            rintro ⟨-, ⟨h, -⟩, -⟩
            exact hprev h
          · cases hc : computeAuditRowHash P row.seq (tsText tz row.ts)
                row.eventType row.agentId payload row.prevHash with
            | none =>
                refine iff_of_false (by simp) ?_
                rintro ⟨-, -, h, -⟩
                cases h
            | some computed =>
                simp only [Option.some.injEq]
                split_ifs with hhash
                · refine iff_of_false (by simp) ?_
                  rintro ⟨-, -, h, -⟩
                  exact hhash h
                · rw [ih]
                  have hlen : m = n + 1 + rows.length ↔
                      m = n + (rows.length + 1) := by omega
                  rw [hlen]
                  have hprev := not_ne_iff.mp hprev
                  have hhash := not_ne_iff.mp hhash
                  simp only [hprev, hhash, true_and]

theorem verified_iff (tz : SessionTz) {rows : List Row} {anchor : Option Anchor} :
    Verified P tz rows anchor ↔
      Linked Row.prevHash Row.rowHash (chainStart P anchor)
          (retained rows anchor) ∧
        ∀ row ∈ retained rows anchor, row.Authentic P tz := by
  rw [Verified, verifyAuditLogChain, verifyRows_intact_iff]
  exact and_iff_right (Nat.zero_add _).symm

theorem mem_bySeq {rows : List Row} {row : Row} :
    row ∈ bySeq rows ↔ row ∈ rows :=
  (List.perm_insertionSort _ rows).mem_iff

theorem mem_retained {rows : List Row} {anchor : Option Anchor} {row : Row} :
    row ∈ retained rows anchor ↔
      row ∈ rows ∧ ∀ a ∈ anchor, a.lastSeqKept ≤ row.seq := by
  cases anchor <;> simp [retained, mem_bySeq]

/-! ## What an append stores -/

theorem dumpable_of_insertError {call : AppendCall}
    (h : insertError P call = none) : call.value.dumpable = true := by
  by_contra hd
  rw [insertError, if_pos (Bool.eq_false_iff.mpr hd)] at h
  cases h

theorem rowHash_insertedRow {call : AppendCall} (tz : SessionTz) (now : Instant)
    (seq : Int) (prev : String) (h : insertError P call = none) :
    (insertedRow P tz now call seq prev).rowHash =
      P.sha256 (canonicalText seq (isoformat now (tz now)) call.eventType
        call.agentId (String.ofList (JsonText.render
          (call.value.canon P.floatVal))) prev) := by
  rw [insertedRow, computeAuditRowHash, dumps,
    if_pos (dumpable_of_insertError P h)]
  rfl

theorem hashedText_insertedRow (tz tz' : SessionTz) (now : Instant)
    (call : AppendCall) (seq : Int) (prev : String) :
    (insertedRow P tz now call seq prev).hashedText P tz' =
      some (canonicalText seq (isoformat now (tz' now)) call.eventType
        call.agentId (String.ofList (JsonText.render
          ((call.value.readBack P.floatVal).canon P.floatVal))) prev) := by
  have hdump := readBack_dumpable P.floatVal call.value
  simp only [Row.hashedText, insertedRow, AppendCall.value, PyVal.readBack,
    decodePayload, Option.bind_eq_bind, Option.bind_some, dumps]
  rw [← PyVal.readBack, ← AppendCall.value, if_pos hdump]
  rfl

/-- The payload of a call is one that JSONB gives back as it was written. -/
def AppendCall.Stable (call : AppendCall) : Prop := call.value.Stable P.floatVal

/-- The verifier recomputes the hash of an inserted row when it reads the
timestamp at the offset it was hashed at and the payload is stable. -/
theorem authentic_insertedRow {call : AppendCall} {tz tz' : SessionTz}
    {now : Instant} (seq : Int) (prev : String) (h : insertError P call = none)
    (htz : tz now = tz' now) (hstable : call.Stable P) :
    (insertedRow P tz now call seq prev).Authentic P tz' := by
  rw [Row.Authentic, recomputedHash_eq, hashedText_insertedRow,
    rowHash_insertedRow P _ _ _ _ h, htz, (canon_readBack_iff P.floatVal call.value).mpr hstable]
  rfl

/-- With an injective hash it does so only then. -/
theorem authentic_insertedRow_iff (hinj : Function.Injective P.sha256)
    {call : AppendCall} {tz tz' : SessionTz} {now : Instant} {seq : Int}
    {prev : String} (h : insertError P call = none) :
    (insertedRow P tz now call seq prev).Authentic P tz' ↔
      tz now = tz' now ∧ call.Stable P := by
  refine ⟨?_, ?_⟩
  · intro ha
    rw [Row.Authentic, recomputedHash_eq, hashedText_insertedRow,
      rowHash_insertedRow P _ _ _ _ h] at ha
    have hbar : ∀ off, '|' ∉ isoformat now off :=
      not_mem_isoformat rfl (by decide) now
    obtain ⟨_, hts, _, hcanon⟩ := (canonicalText_eq_iff (hbar _) (hbar _)).mp
      (hinj (Option.some.inj ha))
    exact ⟨(isoformat_inj hts).2.symm,
      (canon_readBack_iff P.floatVal call.value).mp hcanon⟩
  · exact fun ⟨htz, hstable⟩ => authentic_insertedRow P seq prev h htz hstable

/-- The hash an append stores is the one the verifier computes from the row it
reads back, exactly when both sessions are at one offset from UTC at the time
of the append and JSONB gives the payload back as it was written. -/
theorem append_hash_recomputed_iff (hinj : Function.Injective P.sha256)
    {tz tz' : SessionTz} {now : Instant} {call : AppendCall} {db db' : AuditDb}
    {seq : Int} (h : appendAuditLog P tz now call db = (.ok seq, db')) :
    ∃ row, db'.rows = db.rows ++ [row] ∧
      (row.recomputedHash P tz' = some row.rowHash ↔
        tz now = tz' now ∧ call.Stable P) := by
  unfold appendAuditLog at h
  split at h
  · cases h
  · cases h
  · next herr =>
      cases h
      exact ⟨_, rfl, authentic_insertedRow_iff P hinj herr⟩

end

/-! ## A platform to compute with

The stand-in for the hash keeps the text, so it has no collisions; dates are
UTC, and JSONB text is as long as `json.dumps` text for ASCII strings. -/

def PyFloat.decimalVal (f : PyFloat) : ℚ :=
  (if f.neg then -1 else 1) *
    (Nat.ofDigitChars 10 (digitText f.digits) 0 : ℚ) *
      (10 : ℚ) ^ (f.decpt - f.digits.length)

def Platform.sample : Platform where
  sha256 text := "sha256:" ++ text
  floatVal := PyFloat.decimalVal
  jsonLoads _ := none
  jsonbOctets v := (dumps PyFloat.decimalVal v).map String.length
  daysBefore now days :=
    let micros := now.micros - days * 86400000000
    if h : 86400000000 ≤ micros then some ⟨micros.toNat, by omega⟩ else none

theorem sample_sha256_injective : Function.Injective Platform.sample.sha256 := by
  intro a b h
  have h := congrArg String.toList h
  simp only [Platform.sample, String.toList_append] at h
  exact String.toList_inj.mp (List.append_cancel_left h)

def Instant.ofDay (day : Nat) : Instant := ⟨(day + 1) * 86400000000, by omega⟩

def utcSession : SessionTz := fun _ => .utc

def sampleCall : AppendCall :=
  ⟨"task_completed", some "researcher", [(.str "ok", .bool true)]⟩

theorem append_hash_recomputed_sample :
    ∃ row, (appendAuditLog .sample utcSession (.ofDay 739000) sampleCall
        .empty).2.rows = [] ++ [row] ∧
      (row.recomputedHash .sample utcSession = some row.rowHash ↔
        utcSession (.ofDay 739000) = utcSession (.ofDay 739000) ∧
          sampleCall.Stable .sample) :=
  append_hash_recomputed_iff .sample sample_sha256_injective
    (show appendAuditLog .sample utcSession (.ofDay 739000) sampleCall .empty =
      (.ok 1, _) from rfl)

/-- Python sorts the integer keys 9 and 10 as numbers, JSONB gives them back
as strings. -/
def intKeysCall : AppendCall :=
  ⟨"task_completed", some "researcher",
    [(.int 9, .str "a"), (.int 10, .str "b")]⟩

theorem append_hash_not_recomputed_int_keys :
    (appendAuditLog .sample utcSession (.ofDay 739000) intKeysCall .empty).1 =
        .ok 1 ∧
      ∀ row ∈ (appendAuditLog .sample utcSession (.ofDay 739000) intKeysCall
          .empty).2.rows,
        row.recomputedHash .sample utcSession ≠ some row.rowHash := by
  decide

end LegionForge.Audit
