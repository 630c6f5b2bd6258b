import LegionForge.Audit.Log

/-!
# What an edit of the log can hide

An edit rewrites retained rows and leaves their hash columns alone. Row by row
the hash catches every change except a move of text between event type and
agent id. As a whole the verifier can be made to look away: it walks only the
rows from the anchor's `last_seq_kept` on, so rows whose sequence number is
rewritten to one below that are not walked any more, and if they were a prefix
or a suffix of the chain the rest still links. `Undetected` says both, and
`edit_detected_iff` that there is nothing else.
-/

namespace LegionForge.Audit

open HashChain (Linked)

/-! ## Rows in order -/

theorem bySeq_le (rows : List Row) :
    (bySeq rows).Pairwise fun r s => r.seq ≤ s.seq :=
  haveI : Std.Total fun r s : Row => r.seq ≤ s.seq :=
    ⟨fun r s => le_total r.seq s.seq⟩
  haveI : IsTrans Row fun r s => r.seq ≤ s.seq := ⟨fun _ _ _ => le_trans⟩
  List.pairwise_insertionSort _ _

theorem bySeq_lt {rows : List Row} (h : (rows.map Row.seq).Nodup) :
    (bySeq rows).Pairwise fun r s => r.seq < s.seq := by
  have hnodup : ((bySeq rows).map Row.seq).Nodup :=
    ((List.perm_insertionSort _ rows).map Row.seq).nodup_iff.mpr h
  exact (bySeq_le rows).imp₂ (fun _ _ hle hne => lt_of_le_of_ne hle hne)
    (List.pairwise_map.mp hnodup)

theorem seq_inj_of_sorted {rows : List Row}
    (h : rows.Pairwise fun r s => r.seq < s.seq) {r s : Row} (hr : r ∈ rows)
    (hs : s ∈ rows) (hseq : r.seq = s.seq) : r = s := by
  have hnodup : (rows.map Row.seq).Nodup :=
    List.pairwise_map.mpr (h.imp ne_of_lt)
  exact List.inj_on_of_nodup_map hnodup hr hs hseq

/-- A table has one listing in order. -/
theorem bySeq_eq {rows listing : List Row} (hperm : rows.Perm listing)
    (h : listing.Pairwise fun r s => r.seq < s.seq) : bySeq rows = listing := by
  have hperm' : (bySeq rows).Perm listing :=
    (List.perm_insertionSort _ rows).trans hperm
  refine List.Perm.eq_of_pairwise (fun r s hr hs hrs hsr => ?_) (bySeq_le rows)
    (h.imp le_of_lt) hperm'
  exact seq_inj_of_sorted h (hperm'.mem_iff.mp hr) hs (le_antisymm hrs hsr)

/-! ## Edits -/

section

variable (P : Platform)

/-- The text the payload column stands for in the hash. -/
def payloadText (payload : PyVal) : Option String :=
  (decodePayload P payload).bind (dumps P.floatVal)

/-- Two rows that say the same to the hash: all of sequence number and
timestamp, the payload as it is written, event type and agent id as joined. -/
def SameText (r s : Row) : Prop :=
  r.seq = s.seq ∧ r.ts = s.ts ∧
    eventAndAgent r.eventType r.agentId = eventAndAgent s.eventType s.agentId ∧
    payloadText P r.payload = payloadText P s.payload

/-- An edit of the columns the hash covers, of retained rows only, that leaves
the sequence numbers a primary key. -/
structure Edit (rows : List Row) (anchor : Option Anchor) where
  edit : Row → Row
  prevHash_eq : ∀ row, (edit row).prevHash = row.prevHash
  rowHash_eq : ∀ row, (edit row).rowHash = row.rowHash
  eq_of_not_retained : ∀ row ∈ rows, row ∉ retained rows anchor → edit row = row
  nodup : ((rows.map edit).map Row.seq).Nodup

/-- What the verifier does not see: of the retained rows in order, some at
either end are moved below the anchor, the others say the same to the hash, and
the first of them follows the hash the verifier starts from. -/
def Undetected {rows : List Row} {anchor : Option Anchor}
    (e : Edit rows anchor) : Prop :=
  ∃ pre mid post, retained rows anchor = pre ++ (mid ++ post) ∧
    (∀ row ∈ pre ++ post, ∃ a ∈ anchor, (e.edit row).seq < a.lastSeqKept) ∧
    (∀ row ∈ mid, SameText P (e.edit row) row) ∧
    ∀ row ∈ mid.head?, row.prevHash = chainStart P anchor

/-- The row is among those the verifier walks. -/
def walked (anchor : Option Anchor) (row : Row) : Bool :=
  anchor.all fun a => a.lastSeqKept ≤ row.seq

variable {P}

theorem walked_iff {anchor : Option Anchor} {row : Row} :
    walked anchor row = true ↔ ∀ a ∈ anchor, a.lastSeqKept ≤ row.seq := by
  cases anchor <;> simp [walked]

theorem retained_eq (rows : List Row) (anchor : Option Anchor) :
    retained rows anchor = bySeq (rows.filter (walked anchor)) := by
  cases anchor with
  | none =>
      have hall : rows.filter (walked none) = rows :=
        List.filter_eq_self.mpr fun _ _ => rfl
      rw [hall]
      rfl
  | some a => rfl

theorem retained_lt {rows : List Row} (h : (rows.map Row.seq).Nodup)
    (anchor : Option Anchor) :
    (retained rows anchor).Pairwise fun r s => r.seq < s.seq := by
  rw [retained_eq]
  exact bySeq_lt (h.sublist (List.filter_sublist.map _))

theorem hashedText_some {tz : SessionTz} {row : Row}
    (h : row.Authentic P tz) : ∃ text, row.hashedText P tz = some text ∧
      P.sha256 text = row.rowHash := by
  rw [Row.Authentic, recomputedHash_eq] at h
  exact Option.map_eq_some_iff.mp h

theorem hashedText_eq (tz : SessionTz) (row : Row) :
    row.hashedText P tz = (payloadText P row.payload).map fun text =>
      canonicalText row.seq (tsText tz row.ts) row.eventType row.agentId text
        row.prevHash := by
  rw [Row.hashedText, payloadText]
  cases decodePayload P row.payload with
  | none => rfl
  | some payload =>
      simp only [Option.bind_eq_bind, Option.bind_some]
      cases dumps P.floatVal payload <;> rfl

theorem payloadText_render {payload : PyVal} {text : String}
    (h : payloadText P payload = some text) :
    ∃ j, text = String.ofList (JsonText.render j) := by
  obtain ⟨value, _, hdumps⟩ := Option.bind_eq_some_iff.mp h
  unfold dumps at hdumps
  split at hdumps
  · exact ⟨_, (Option.some.inj hdumps).symm⟩
  · cases hdumps

theorem hashedText_seq {tz : SessionTz} {r s : Row} {text : String}
    (hr : r.hashedText P tz = some text) (hs : s.hashedText P tz = some text) :
    r.seq = s.seq := by
  rw [hashedText_eq] at hr hs
  obtain ⟨_, _, hr⟩ := Option.map_eq_some_iff.mp hr
  obtain ⟨_, _, hs⟩ := Option.map_eq_some_iff.mp hs
  exact canonicalText_seq (hr.trans hs.symm)

/-- For rows that follow the same hash, the same text is the same content up to
the ambiguity of the join. -/
theorem hashedText_eq_iff {tz : SessionTz} {r s : Row} {text : String}
    (hprev : r.prevHash = s.prevHash) (hs : s.hashedText P tz = some text) :
    r.hashedText P tz = some text ↔ SameText P r s := by
  have hbar := bar_not_mem_tsText tz
  rw [hashedText_eq] at hs ⊢
  obtain ⟨stext, hstext, rfl⟩ := Option.map_eq_some_iff.mp hs
  obtain ⟨js, rfl⟩ := payloadText_render hstext
  refine ⟨?_, ?_⟩
  · intro hr
    obtain ⟨rtext, hrtext, htext⟩ := Option.map_eq_some_iff.mp hr
    obtain ⟨jr, rfl⟩ := payloadText_render hrtext
    rw [hprev] at htext
    obtain ⟨hseq, hts, hjoin, hj⟩ :=
      (canonicalText_eq_iff (hbar _) (hbar _)).mp htext
    exact ⟨hseq, tsText_inj hts, hjoin, by rw [hrtext, hstext, hj]⟩
  · rintro ⟨hseq, hts, hjoin, hpayload⟩
    rw [hpayload, hstext, hprev, hseq, hts]
    exact congrArg some
      ((canonicalText_eq_iff (hbar _) (hbar _)).mpr ⟨rfl, rfl, hjoin, rfl⟩)

/-! ## Detection -/

/-- In a chain that verifies, no two rows have one hash. -/
theorem rowHash_nodup (hinj : Function.Injective P.sha256) {tz : SessionTz}
    {rows : List Row} (hsorted : rows.Pairwise fun r s => r.seq < s.seq)
    (hauth : ∀ row ∈ rows, row.Authentic P tz) :
    (rows.map Row.rowHash).Nodup := by
  refine List.pairwise_map.mpr (hsorted.imp_of_mem fun hr hs hlt heq => ?_)
  obtain ⟨t, hrt, hrh⟩ := hashedText_some (hauth _ hr)
  obtain ⟨u, hsu, hsh⟩ := hashedText_some (hauth _ hs)
  have htu : t = u := hinj (by rw [hrh, hsh, heq])
  exact absurd (hashedText_seq hrt (htu ▸ hsu)) (ne_of_lt hlt)

/-- An edited row still has the hash of its own content exactly when it says
the same to the hash. -/
theorem Edit.authentic_iff (hinj : Function.Injective P.sha256) {tz : SessionTz}
    {rows : List Row} {anchor : Option Anchor} (e : Edit rows anchor) {row : Row}
    (hauth : row.Authentic P tz) :
    (e.edit row).Authentic P tz ↔ SameText P (e.edit row) row := by
  obtain ⟨text, htext, hhash⟩ := hashedText_some hauth
  rw [← hashedText_eq_iff (e.prevHash_eq row) htext]
  refine ⟨?_, ?_⟩
  · intro h
    obtain ⟨text', htext', hhash'⟩ := hashedText_some h
    rw [htext', hinj (hhash'.trans ((e.rowHash_eq row).trans hhash.symm))]
  · intro h
    rw [Row.Authentic, recomputedHash_eq, h, e.rowHash_eq, ← hhash]
    rfl

/-- The rows walked after an edit that keeps the sequence numbers of those
still walked. -/
theorem Edit.retained_eq {rows : List Row} {anchor : Option Anchor}
    (e : Edit rows anchor) (hnodup : (rows.map Row.seq).Nodup)
    (hseq : ∀ row ∈ retained rows anchor, walked anchor (e.edit row) = true →
      (e.edit row).seq = row.seq) :
    retained (rows.map e.edit) anchor =
      ((retained rows anchor).filter fun row => walked anchor (e.edit row)).map
        e.edit := by
  rw [Audit.retained_eq (rows.map e.edit)]
  refine bySeq_eq ?_ ?_
  · have hfilter : rows.filter (fun row => walked anchor (e.edit row)) =
        (rows.filter (walked anchor)).filter
          fun row => walked anchor (e.edit row) := by
      rw [List.filter_filter]
      refine List.filter_congr fun row hrow => ?_
      by_cases hw : walked anchor row = true
      · rw [hw, Bool.and_true]
      · have hne : row ∉ retained rows anchor := fun hmem =>
          hw (walked_iff.mpr (mem_retained.mp hmem).2)
        rw [e.eq_of_not_retained row hrow hne, Bool.and_self]
    rw [List.filter_map]
    refine List.Perm.map _ ?_
    rw [show (walked anchor ∘ e.edit) = fun row => walked anchor (e.edit row)
      from rfl, hfilter, Audit.retained_eq]
    exact ((List.perm_insertionSort _ _).filter _).symm
  · refine List.pairwise_map.mpr ?_
    refine ((retained_lt hnodup anchor).filter _).imp_of_mem
      fun hr hs hlt => ?_
    obtain ⟨hr, hrw⟩ := List.mem_filter.mp hr
    obtain ⟨hs, hsw⟩ := List.mem_filter.mp hs
    rw [hseq _ hr hrw, hseq _ hs hsw]
    exact hlt

theorem not_walked_iff {anchor : Option Anchor} {row : Row} :
    walked anchor row = false ↔ ∃ a ∈ anchor, row.seq < a.lastSeqKept := by
  cases anchor <;> simp [walked]

/-- What is left out of a selection that is a block of the list fails it. -/
theorem not_selected_of_block {α : Type} {p : α → Bool} {l pre post : List α}
    (h : l = pre ++ (l.filter p ++ post)) : ∀ x ∈ pre ++ post, p x = false := by
  have hself : (l.filter p).filter p = l.filter p :=
    List.filter_eq_self.mpr fun _ hx => (List.mem_filter.mp hx).2
  have hlen : (l.filter p).length =
      (pre.filter p).length + ((l.filter p).length + (post.filter p).length) := by
    have hfilter := congrArg (List.filter p) h
    rw [List.filter_append, List.filter_append, hself] at hfilter
    have hlen := congrArg List.length hfilter
    rwa [List.length_append, List.length_append] at hlen
  have hpre : pre.filter p = [] := List.length_eq_zero_iff.mp (by omega)
  have hpost : post.filter p = [] := List.length_eq_zero_iff.mp (by omega)
  intro x hx
  rcases List.mem_append.mp hx with hx | hx
  · exact Bool.eq_false_iff.mpr (List.filter_eq_nil_iff.mp hpre x hx)
  · exact Bool.eq_false_iff.mpr (List.filter_eq_nil_iff.mp hpost x hx)

/-- With an injective hash, the verifier fails on an edited log that verified
before exactly when the edit is not one of those it cannot see. -/
theorem edit_detected_iff (hinj : Function.Injective P.sha256) {tz : SessionTz}
    {rows : List Row} {anchor : Option Anchor}
    (hnodup : (rows.map Row.seq).Nodup) (hverified : Verified P tz rows anchor)
    (e : Edit rows anchor) :
    ¬ Verified P tz (rows.map e.edit) anchor ↔ ¬ Undetected P e := by
  obtain ⟨hlinked, hauth⟩ := (verified_iff P tz).mp hverified
  have hsorted := retained_lt hnodup anchor
  have hhashes := rowHash_nodup hinj hsorted hauth
  refine not_congr ?_
  rw [verified_iff]
  refine ⟨?_, ?_⟩
  · rintro ⟨hlinked', hauth'⟩
    have hsame : ∀ row ∈ retained rows anchor, walked anchor (e.edit row) = true →
        SameText P (e.edit row) row := by
      intro row hrow hw
      refine (e.authentic_iff hinj (hauth row hrow)).mp (hauth' _ ?_)
      refine mem_retained.mpr ⟨?_, walked_iff.mp hw⟩
      exact List.mem_map_of_mem (mem_retained.mp hrow).1
    rw [e.retained_eq hnodup fun row hrow hw => (hsame row hrow hw).1,
      HashChain.linked_map] at hlinked'
    simp only [e.prevHash_eq, e.rowHash_eq] at hlinked'
    obtain ⟨pre, post, hsplit⟩ := hlinked.filter_block hlinked' hhashes
    refine ⟨pre, _, post, hsplit, ?_, ?_, hlinked'.head⟩
    · intro row hrow
      exact not_walked_iff.mp (not_selected_of_block hsplit row hrow)
    · intro row hrow
      obtain ⟨hrow, hw⟩ := List.mem_filter.mp hrow
      exact hsame row hrow hw
  · rintro ⟨pre, mid, post, hsplit, hhidden, hsame, hhead⟩
    have hmem : ∀ row ∈ mid, row ∈ retained rows anchor := fun row hrow =>
      hsplit ▸ List.mem_append_right _ (List.mem_append_left _ hrow)
    have hmid : (retained rows anchor).filter
        (fun row => walked anchor (e.edit row)) = mid := by
      have hout : ∀ row ∈ pre ++ post, ¬ walked anchor (e.edit row) = true :=
        fun row hrow => Bool.eq_false_iff.mp
          (not_walked_iff.mpr (hhidden row hrow))
      have hin : ∀ row ∈ mid, walked anchor (e.edit row) = true := by
        intro row hrow
        rw [walked_iff, (hsame row hrow).1]
        exact (mem_retained.mp (hmem row hrow)).2
      rw [hsplit, List.filter_append, List.filter_append,
        List.filter_eq_nil_iff.mpr fun row hrow =>
          hout row (List.mem_append_left _ hrow),
        List.filter_eq_nil_iff.mpr fun row hrow =>
          hout row (List.mem_append_right _ hrow),
        List.filter_eq_self.mpr hin, List.nil_append, List.append_nil]
    have hseq : ∀ row ∈ retained rows anchor,
        walked anchor (e.edit row) = true → (e.edit row).seq = row.seq := by
      intro row hrow hw
      exact (hsame row (hmid ▸ List.mem_filter.mpr ⟨hrow, hw⟩)).1
    rw [e.retained_eq hnodup hseq, hmid, HashChain.linked_map]
    simp only [e.prevHash_eq, e.rowHash_eq, List.forall_mem_map]
    rw [hsplit] at hlinked
    exact ⟨hlinked.of_block hhead, fun row hrow =>
      (e.authentic_iff hinj (hauth row (hmem row hrow))).mpr (hsame row hrow)⟩

end

def sampleRow : Row :=
  insertedRow .sample utcSession (.ofDay 739000)
    ⟨"login|admin", some "bob", [(.str "ok", .bool true)]⟩ 1
    (auditLogGenesis .sample)

/-- Moves the text between the separators to the other column. -/
def moveText (row : Row) : Row :=
  { row with eventType := "login", agentId := some "admin|bob" }

theorem verified_sampleRow : Verified .sample utcSession [sampleRow] none := by
  rfl

def sampleEdit : Edit [sampleRow] none where
  edit row := { row with payload := .dict [] }
  prevHash_eq _ := rfl
  rowHash_eq _ := rfl
  eq_of_not_retained row hrow h :=
    absurd (mem_retained.mpr
      ⟨hrow, fun a ha => absurd ha (Option.not_mem_none a)⟩) h
  nodup := by decide

theorem edit_detected_sampleEdit :
    ¬ Verified .sample utcSession ([sampleRow].map sampleEdit.edit) none ↔
      ¬ Undetected .sample sampleEdit :=
  edit_detected_iff sample_sha256_injective (by decide) verified_sampleRow
    sampleEdit

theorem moved_text_verifies :
    (moveText sampleRow).eventType ≠ sampleRow.eventType ∧
      (moveText sampleRow).agentId ≠ sampleRow.agentId ∧
      Verified .sample utcSession [sampleRow] none ∧
      Verified .sample utcSession [moveText sampleRow] none :=
  ⟨by decide, by decide, rfl, rfl⟩

end LegionForge.Audit
