import LegionForge.Audit.RoundTrip
import LegionForge.Audit.Time

/-!
# One row of the audit log and its hash

`_compute_audit_row_hash` joins six fields with `|` and hashes the text. The
lemmas here read the text back as far as it goes: the sequence number and the
timestamp cannot contain the separator and are determined; the payload is
determined because JSON text is recognised from the right; what stands between
them, event type and agent id, is determined as one text only, because both
may contain the separator (`canonicalText_eq_iff`).
-/

namespace LegionForge.Audit

open JsonText (render)

/-- What the code leaves to the interpreter, to `hashlib` and to PostgreSQL. -/
structure Platform where
  /-- `hashlib.sha256(text.encode("utf-8")).hexdigest()` -/
  sha256 : String → String
  /-- the exact binary value of a float -/
  floatVal : PyFloat → ℚ
  /-- `json.loads`, `none` for a `JSONDecodeError` -/
  jsonLoads : String → Option PyVal
  /-- `octet_length(payload::text)`, `none` where JSONB refuses the value -/
  jsonbOctets : PyVal → Option Nat
  /-- `now() - make_interval(days := n)`, `none` where it is out of range -/
  daysBefore : Instant → Int → Option Instant

/-- A row as the driver hands it out: the payload decoded from JSONB. -/
structure Row where
  seq : Int
  ts : Option Instant
  eventType : String
  agentId : Option String
  payload : PyVal
  prevHash : String
  rowHash : String

section

variable (P : Platform)

/-- `_AUDIT_LOG_GENESIS` -/
def auditLogGenesis : String := P.sha256 "LEGIONFORGE_AUDIT_LOG_GENESIS"

/-- `f"{seq}|{ts}|{event_type}|{agent_id or ''}|{payload}|{prev_hash}"` -/
def canonicalText (seq : Int) (ts : List Char) (eventType : String)
    (agentId : Option String) (payload : String) (prevHash : String) : String :=
  String.ofList (intText seq ++ '|' :: (ts ++ '|' ::
    ((eventType.toList ++ '|' :: (agentId.getD "").toList) ++ '|' ::
      payload.toList) ++ '|' :: prevHash.toList))

/-- `_compute_audit_row_hash`, `none` for the `TypeError` of `json.dumps`. -/
def computeAuditRowHash (seq : Int) (ts : List Char) (eventType : String)
    (agentId : Option String) (payload : PyVal) (prevHash : String) :
    Option String :=
  (dumps P.floatVal payload).map fun text =>
    P.sha256 (canonicalText seq ts eventType agentId text prevHash)

/-- `row["ts"].isoformat()`, or `str(row["ts"])` of a null. -/
def tsText (tz : SessionTz) : Option Instant → List Char
  | some t => isoformat t (tz t)
  | none => "None".toList

/-- The payload as it is hashed: a dict as it is, a string parsed once more.
Anything else makes `json.loads` raise `TypeError`. -/
def decodePayload : PyVal → Option PyVal
  | .dict items => some (.dict items)
  | .str s => P.jsonLoads s
  | _ => none

/-- The hash `verify_audit_log_chain` computes for a row it has read. -/
def Row.recomputedHash (tz : SessionTz) (row : Row) : Option String :=
  (decodePayload P row.payload).bind fun payload =>
    computeAuditRowHash P row.seq (tsText tz row.ts) row.eventType row.agentId
      payload row.prevHash

/-- The row carries the hash of its own content. -/
def Row.Authentic (tz : SessionTz) (row : Row) : Prop :=
  row.recomputedHash P tz = some row.rowHash

/-- The text that is hashed for a row. -/
def Row.hashedText (tz : SessionTz) (row : Row) : Option String := do
  let payload ← decodePayload P row.payload
  let text ← dumps P.floatVal payload
  some (canonicalText row.seq (tsText tz row.ts) row.eventType row.agentId text
    row.prevHash)

theorem recomputedHash_eq (tz : SessionTz) (row : Row) :
    row.recomputedHash P tz = (row.hashedText P tz).map P.sha256 := by
  rw [Row.recomputedHash, Row.hashedText]
  cases decodePayload P row.payload with
  | none => rfl
  | some payload =>
      simp only [Option.bind_eq_bind, Option.bind_some, computeAuditRowHash]
      cases dumps P.floatVal payload <;> rfl

end

/-! ## Reading the text back -/

theorem bar_not_mem_intText (n : Int) : '|' ∉ intText n := by
  intro h
  exact absurd (tokenChar_intText n _ h) (by decide)

theorem bar_not_mem_tsText (tz : SessionTz) (ts : Option Instant) :
    '|' ∉ tsText tz ts := by
  cases ts with
  | none => rw [tsText]; decide
  | some t => exact not_mem_isoformat rfl (by decide) t (tz t)

theorem tsText_inj {tz : SessionTz} {ts us : Option Instant}
    (h : tsText tz ts = tsText tz us) : ts = us := by
  have hnone : ∀ t : Instant, tsText tz (some t) ≠ tsText tz none := by
    intro t ht
    have hN : 'N' ∈ tsText tz (some t) := ht ▸ List.mem_cons_self
    exact not_mem_isoformat rfl (by decide) t (tz t) hN
  cases ts with
  | none =>
      cases us with
      | none => rfl
      | some u => exact absurd h.symm (hnone u)
  | some t =>
      cases us with
      | none => exact absurd h (hnone t)
      | some u => rw [(isoformat_inj h).1]

theorem signText_append_inj {a b : Bool} {x y : List Char} (hx : '-' ∉ x)
    (hy : '-' ∉ y) (h : signText a ++ x = signText b ++ y) : a = b ∧ x = y := by
  cases a <;> cases b
  · exact ⟨rfl, h⟩
  · have hmem : '-' ∈ signText false ++ x := h ▸ List.mem_cons_self
    exact absurd hmem hx
  · have hmem : '-' ∈ signText false ++ y := h ▸ List.mem_cons_self
    exact absurd hmem hy
  · exact ⟨rfl, (List.cons.inj h).2⟩

theorem intText_inj {m n : Int} (h : intText m = intText n) : m = n := by
  obtain ⟨hsign, habs⟩ := signText_append_inj
    (Delimited.not_isDigit_not_mem_toDigits rfl)
    (Delimited.not_isDigit_not_mem_toDigits rfl) h
  have hsign := decide_eq_decide.mp hsign
  have habs := Delimited.toDigits_inj habs
  omega

/-- The sequence number is the text before the first separator, whatever the
rest of the row says. -/
theorem canonicalText_seq {m n : Int} {ts us : List Char} {e f : String}
    {a b : Option String} {j k p q : String}
    (h : canonicalText m ts e a j p = canonicalText n us f b k q) : m = n := by
  have h := String.ofList_injective h
  exact intText_inj (Delimited.append_cons_inj (bar_not_mem_intText m)
    (bar_not_mem_intText n) h).1

/-- Event type and agent id as they stand in the text: nothing tells where the
first ends, and a missing agent id is an empty one. -/
def eventAndAgent (eventType : String) (agentId : Option String) : List Char :=
  eventType.toList ++ '|' :: (agentId.getD "").toList

/-- What the text of a row says, for rows that follow the same hash. -/
theorem canonicalText_eq_iff {m n : Int} {ts us : List Char} {e f : String}
    {a b : Option String} {j k : JsonText.Json} {p : String}
    (hts : '|' ∉ ts) (hus : '|' ∉ us) :
    canonicalText m ts e a (String.ofList (render j)) p =
        canonicalText n us f b (String.ofList (render k)) p ↔
      m = n ∧ ts = us ∧ eventAndAgent e a = eventAndAgent f b ∧ j = k := by
  refine ⟨?_, ?_⟩
  · intro h
    have h := String.ofList_injective h
    simp only [String.toList_ofList] at h
    obtain ⟨hseq, h⟩ := Delimited.append_cons_inj (bar_not_mem_intText m)
      (bar_not_mem_intText n) h
    have h : ts ++ '|' :: (eventAndAgent e a ++ '|' :: render j) =
        us ++ '|' :: (eventAndAgent f b ++ '|' :: render k) := by
      have hp : (ts ++ '|' :: (eventAndAgent e a ++ '|' :: render j)) ++
            '|' :: p.toList =
          (us ++ '|' :: (eventAndAgent f b ++ '|' :: render k)) ++
            '|' :: p.toList := by
        simpa only [eventAndAgent, List.append_assoc, List.cons_append] using h
      exact List.append_cancel_right hp
    obtain ⟨htu, h⟩ := Delimited.append_cons_inj hts hus h
    obtain ⟨hjoin, hjk⟩ := JsonText.append_cons_render_inj (by decide)
      (by decide) (by decide) (by decide) h
    exact ⟨intText_inj hseq, htu, hjoin, hjk⟩
  · rintro ⟨rfl, rfl, hjoin, rfl⟩
    simp only [canonicalText]
    rw [show e.toList ++ '|' :: (a.getD "").toList =
      f.toList ++ '|' :: (b.getD "").toList from hjoin]

end LegionForge.Audit
