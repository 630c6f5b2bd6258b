import LegionForge.Audit.Log

/-!
# The audit chain over runs of appends and prunes

What a run of calls that do not overlap leaves behind. The invariant relates
the retained rows to the last anchor: they are linked from its boundary hash
(from the genesis hash while there is none), they start where it says, and it
is the anchor a verifier picks. Two steps can break it. An append to a log that
pruning has emptied takes the genesis hash as its predecessor, while the
verifier starts from the boundary; and two anchors written at one instant leave
open which of them the verifier starts from. `Keeps` excludes these and the
rows whose hash cannot be recomputed, and nothing else; every other run leaves
a chain that verifies (`verified_of_keeps`).
-/

namespace LegionForge.Audit

open HashChain (Linked tip linked_append linked_concat)

/-- One call: an append by a session of some time zone, or a prune. -/
inductive Call where
  | append (tz : SessionTz) (call : AppendCall)
  | prune (retentionDays : Int)

structure TimedCall where
  now : Instant
  call : Call

section

variable (P : Platform) (rf : RowFactory)

def step (db : AuditDb) (c : TimedCall) : AuditDb :=
  match c.call with
  | .append tz call => (appendAuditLog P tz c.now call db).2
  | .prune retentionDays => (pruneAuditLog P rf c.now retentionDays db).2

def run (db : AuditDb) (calls : List TimedCall) : AuditDb :=
  calls.foldl (step P rf) db

/-- The call neither writes a row whose hash a verifier in zone `tz` cannot
recompute, nor appends to a log emptied by a prune, nor, leaving rows, writes
an anchor at the instant of another one. -/
def Keeps (tz : SessionTz) (db : AuditDb) (c : TimedCall) : Prop :=
  match c.call with
  | .append tz' call =>
      insertError P call = none →
        tz' c.now = tz c.now ∧ call.Stable P ∧
          (db.rows = [] → db.anchors = [])
  | .prune retentionDays =>
      ∀ last ∈ lastToDelete P c.now retentionDays db.rows,
        (∃ row ∈ db.rows, last.seq < row.seq) →
          ∀ a ∈ db.anchors, a.prunedAt ≠ c.now

/-- Every call of a run keeps the chain in the state it is made in. -/
def KeepsAll (tz : SessionTz) : AuditDb → List TimedCall → Prop
  | _, [] => True
  | db, c :: calls => Keeps P tz db c ∧ KeepsAll tz (step P rf db c) calls

/-- The clock does not go back. -/
def ClockMonotone (calls : List TimedCall) : Prop :=
  (calls.map (·.now.micros)).Pairwise (· ≤ ·)

end

/-! ## The invariant -/

section

variable (P : Platform) (tz : SessionTz)

structure ChainInv (db : AuditDb) (clock : Nat) : Prop where
  sorted : db.rows.Pairwise fun r s => r.seq < s.seq
  fresh : ∀ row ∈ db.rows, row.seq < db.nextSeq
  authentic : ∀ row ∈ db.rows, row.Authentic P tz
  linked : Linked Row.prevHash Row.rowHash (chainStart P db.anchors.getLast?)
    db.rows
  kept : ∀ a ∈ db.anchors.getLast?, ∀ row ∈ db.rows, a.lastSeqKept ≤ row.seq
  latest : db.rows ≠ [] → ∀ a ∈ db.anchors.getLast?, ∀ b ∈ db.anchors.dropLast,
    b.prunedAt.micros < a.prunedAt.micros
  past : ∀ a ∈ db.anchors, a.prunedAt.micros ≤ clock

variable {P tz}

theorem chainInv_empty (clock : Nat) : ChainInv P tz .empty clock where
  sorted := .nil
  fresh := by simp [AuditDb.empty]
  authentic := by simp [AuditDb.empty]
  linked := trivial
  kept := by simp [AuditDb.empty]
  latest := fun h => absurd rfl h
  past := by simp [AuditDb.empty]

theorem ChainInv.mono {db : AuditDb} {clock clock' : Nat}
    (h : ChainInv P tz db clock) (hle : clock ≤ clock') :
    ChainInv P tz db clock' :=
  { h with past := fun a ha => (h.past a ha).trans hle }

theorem bySeq_of_sorted {rows : List Row}
    (h : rows.Pairwise fun r s => r.seq < s.seq) : bySeq rows = rows :=
  (h.imp le_of_lt).insertionSort_eq

/-- The hash the next append follows is the one the chain ends with. -/
theorem ChainInv.prevHashOf_eq {db : AuditDb} {clock : Nat}
    (h : ChainInv P tz db clock) (hempty : db.rows = [] → db.anchors = []) :
    prevHashOf P db.rows =
      tip Row.rowHash (chainStart P db.anchors.getLast?) db.rows := by
  rw [prevHashOf, lastRow, bySeq_of_sorted h.sorted]
  rcases List.eq_nil_or_concat db.rows with hnil | ⟨front, last, hlast⟩
  · rw [hnil, hempty hnil]
    rfl
  · rw [hlast, List.concat_eq_append, HashChain.tip_concat,
      List.getLast?_concat]

theorem ChainInv.append {db : AuditDb} {now : Instant}
    (h : ChainInv P tz db now.micros) {tz' : SessionTz} {call : AppendCall}
    (herr : insertError P call = none) (htz : tz' now = tz now)
    (hstable : call.Stable P) (hempty : db.rows = [] → db.anchors = []) :
    ChainInv P tz
      { db with
        rows := db.rows ++
          [insertedRow P tz' now call db.nextSeq (prevHashOf P db.rows)]
        nextSeq := db.nextSeq + 1 } now.micros where
  sorted := by
    refine List.pairwise_append.mpr ⟨h.sorted, List.pairwise_singleton _ _, ?_⟩
    intro row hrow new hnew
    rw [List.mem_singleton.mp hnew]
    exact h.fresh row hrow
  fresh := by
    intro row hrow
    rcases List.mem_append.mp hrow with hrow | hrow
    · exact (h.fresh row hrow).trans (Int.lt_succ _)
    · rw [List.mem_singleton.mp hrow]
      exact Int.lt_succ _
  authentic := by
    intro row hrow
    rcases List.mem_append.mp hrow with hrow | hrow
    · exact h.authentic row hrow
    · rw [List.mem_singleton.mp hrow]
      exact authentic_insertedRow P _ _ herr htz hstable
  linked := linked_concat.mpr ⟨h.linked, h.prevHashOf_eq hempty⟩
  kept := by
    intro a ha row hrow
    rcases List.mem_append.mp hrow with hrow | hrow
    · exact h.kept a ha row hrow
    · -- The log was not empty, or there would be no anchor; the new row comes
      -- after a retained one.
      rw [List.mem_singleton.mp hrow]
      cases hrows : db.rows with
      | nil =>
          rw [hempty hrows] at ha
          cases ha
      | cons first rest =>
          have hfirst : first ∈ db.rows := hrows ▸ List.mem_cons_self
          exact (h.kept a ha first hfirst).trans (h.fresh first hfirst).le
  latest := by
    intro _ a ha
    refine h.latest (fun hnil => ?_) a ha
    rw [hempty hnil] at ha
    cases ha
  past := h.past

/-- In rows sorted by sequence number the rows after a given one are a tail. -/
theorem filter_after {rows : List Row}
    (h : rows.Pairwise fun r s => r.seq < s.seq) {last : Row}
    (hlast : last ∈ rows) :
    ∃ front, rows = front ++ [last] ++
      rows.filter fun row => last.seq < row.seq := by
  obtain ⟨front, back, rfl⟩ := List.append_of_mem hlast
  obtain ⟨_, hcons, hcross⟩ := List.pairwise_append.mp h
  obtain ⟨hback, _⟩ := List.pairwise_cons.mp hcons
  refine ⟨front, ?_⟩
  have hfront : front.filter (fun row => decide (last.seq < row.seq)) = [] := by
    refine List.filter_eq_nil_iff.mpr fun row hrow => ?_
    have := hcross row hrow last List.mem_cons_self
    simpa using this.le
  have hkeep : back.filter (fun row => decide (last.seq < row.seq)) = back :=
    List.filter_eq_self.mpr fun row hrow => decide_eq_true (hback row hrow)
  rw [List.filter_append, hfront, List.filter_cons_of_neg (by simp), hkeep]
  simp

theorem lastToDelete_mem {now : Instant} {days : Int} {rows : List Row}
    {last : Row} (h : lastToDelete P now days rows = some last) :
    last ∈ rows := by
  obtain ⟨cutoff, _, h⟩ := Option.bind_eq_some_iff.mp h
  exact (List.mem_filter.mp (mem_bySeq.mp (List.mem_of_getLast? h))).1

theorem ChainInv.prune {db : AuditDb} {now : Instant}
    (h : ChainInv P tz db now.micros) {days : Int} {last : Row}
    (hlast : last ∈ db.rows)
    (hnew : (∃ row ∈ db.rows, last.seq < row.seq) →
      ∀ a ∈ db.anchors, a.prunedAt ≠ now) :
    ChainInv P tz
      { db with
        anchors := db.anchors ++ [newAnchor now days last db]
        rows := db.rows.filter fun row => last.seq < row.seq } now.micros where
  sorted := h.sorted.filter _
  fresh := fun row hrow => h.fresh row (List.mem_filter.mp hrow).1
  authentic := fun row hrow => h.authentic row (List.mem_filter.mp hrow).1
  linked := by
    obtain ⟨front, hfront⟩ := filter_after h.sorted hlast
    have hlinked := h.linked
    rw [hfront, linked_append, HashChain.tip_concat] at hlinked
    rw [List.getLast?_concat]
    exact hlinked.2
  kept := by
    intro a ha row hrow
    rw [List.getLast?_concat] at ha
    cases ha
    have hsorted := h.sorted.filter fun row => decide (last.seq < row.seq)
    simp only [newAnchor, bySeq_of_sorted hsorted]
    cases hrows : db.rows.filter fun row => decide (last.seq < row.seq) with
    | nil => exact absurd hrow (by rw [hrows]; exact List.not_mem_nil)
    | cons first rest =>
        rw [hrows] at hrow hsorted
        rcases List.mem_cons.mp hrow with rfl | hrow
        · exact le_rfl
        · exact ((List.pairwise_cons.mp hsorted).1 row hrow).le
  latest := by
    intro hne a ha b hb
    rw [List.getLast?_concat] at ha
    rw [List.dropLast_concat] at hb
    cases ha
    obtain ⟨row, hrow⟩ := List.exists_mem_of_ne_nil _ hne
    obtain ⟨hrow, hseq⟩ := List.mem_filter.mp hrow
    have hb' := hnew ⟨row, hrow, of_decide_eq_true hseq⟩ b hb
    have hle := h.past b hb
    refine lt_of_le_of_ne hle fun he => hb' ?_
    obtain ⟨⟨bm, _⟩, _, _, _, _, _⟩ := b
    cases now
    simp only at he
    subst he
    rfl
  past := by
    intro a ha
    rcases List.mem_append.mp ha with ha | ha
    · exact h.past a ha
    · rw [List.mem_singleton.mp ha]
      exact le_rfl

/-! ## Steps and runs -/

theorem ChainInv.step {rf : RowFactory} {db : AuditDb} {c : TimedCall}
    (h : ChainInv P tz db c.now.micros) (hkeeps : Keeps P tz db c) :
    ChainInv P tz (step P rf db c) c.now.micros := by
  obtain ⟨now, ⟨tz', call⟩ | days⟩ := c
  · unfold Audit.step appendAuditLog
    simp only
    split
    · exact { h with fresh := fun row hrow =>
        (h.fresh row hrow).trans (Int.lt_succ _) }
    · exact h
    · next herr =>
        obtain ⟨htz, hstable, hempty⟩ := hkeeps herr
        exact h.append herr htz hstable hempty
  · unfold Audit.step pruneAuditLog
    simp only
    split_ifs
    · exact h
    · split
      · exact h
      · next last hlast =>
          split
          · exact h
          · exact h.prune (lastToDelete_mem hlast) (hkeeps last hlast)

theorem ChainInv.run {rf : RowFactory} {calls : List TimedCall} {db : AuditDb}
    {clock : Nat} (h : ChainInv P tz db clock)
    (hclock : ClockMonotone calls)
    (hstart : ∀ c ∈ calls, clock ≤ c.now.micros)
    (hkeeps : KeepsAll P rf tz db calls) :
    ∃ clock', ChainInv P tz (run P rf db calls) clock' := by
  induction calls generalizing db clock with
  | nil => exact ⟨clock, h⟩
  | cons c calls ih =>
      obtain ⟨hfirst, hrest⟩ := List.pairwise_cons.mp hclock
      have hstep : ChainInv P tz (Audit.step P rf db c) c.now.micros :=
        (h.mono (hstart c List.mem_cons_self)).step hkeeps.1
      exact ih hstep hrest
        (fun d hd => hfirst _ (List.mem_map_of_mem hd)) hkeeps.2

/-- Where the invariant holds, every anchor a verifier may pick verifies. -/
theorem ChainInv.verified {db : AuditDb} {clock : Nat}
    (h : ChainInv P tz db clock) {anchor : Option Anchor}
    (hpick : LatestAnchor db.anchors anchor) :
    verifyAuditLogChain P tz db.rows anchor =
      .ok (true, db.rows.length, none) := by
  by_cases hempty : db.rows = []
  · rw [hempty]
    cases anchor <;> rfl
  have hanchor : anchor = db.anchors.getLast? := by
    cases anchor with
    | none => rw [show db.anchors = [] from hpick]; rfl
    | some a =>
        obtain ⟨hmem, hmax⟩ := hpick
        obtain ⟨older, last, hlast⟩ :=
          (List.eq_nil_or_concat db.anchors).resolve_left
            (List.ne_nil_of_mem hmem)
        rw [List.concat_eq_append] at hlast
        have hlatest := h.latest hempty
        rw [hlast, List.getLast?_concat, List.dropLast_concat] at hlatest
        rw [hlast, List.getLast?_concat]
        rw [hlast] at hmem hmax
        rcases List.mem_append.mp hmem with hold | hnew
        · have hlt := hlatest last rfl a hold
          have hle := hmax last (List.mem_append_right _ List.mem_cons_self)
          omega
        · rw [List.mem_singleton.mp hnew]
  subst hanchor
  have hall : retained db.rows db.anchors.getLast? = db.rows := by
    cases ha : db.anchors.getLast? with
    | none => exact bySeq_of_sorted h.sorted
    | some a =>
        rw [retained, List.filter_eq_self.mpr fun row hrow =>
          decide_eq_true (h.kept a ha row hrow)]
        exact bySeq_of_sorted h.sorted
  rw [verifyAuditLogChain, hall, verifyRows_intact_iff]
  exact ⟨(Nat.zero_add _).symm, h.linked, h.authentic⟩

theorem KeepsAll.append_left {rf : RowFactory} {db : AuditDb}
    {done rest : List TimedCall} (h : KeepsAll P rf tz db (done ++ rest)) :
    KeepsAll P rf tz db done := by
  induction done generalizing db with
  | nil => trivial
  | cons c done ih => exact ⟨h.1, ih h.2⟩

/-- In every run from the empty tables whose calls keep the chain, the clock
not going back, the log verifies after every call, whatever anchor of the last
time the verifier picks, and every retained row is counted. -/
theorem verified_of_keeps (rf : RowFactory) (calls : List TimedCall)
    (hclock : ClockMonotone calls) (hkeeps : KeepsAll P rf tz .empty calls)
    (done rest : List TimedCall) (hsplit : calls = done ++ rest)
    (anchor : Option Anchor)
    (hpick : LatestAnchor (run P rf .empty done).anchors anchor) :
    verifyAuditLogChain P tz (run P rf .empty done).rows anchor =
      .ok (true, (run P rf .empty done).rows.length, none) := by
  subst hsplit
  have hclock' : ClockMonotone done :=
    hclock.sublist ((List.sublist_append_left done rest).map _)
  obtain ⟨_, hinv⟩ := (chainInv_empty (P := P) 0).run hclock'
    (fun _ _ => Nat.zero_le _) hkeeps.append_left
  exact hinv.verified hpick

end

theorem sampleCall_stable : sampleCall.Stable .sample := by
  refine ⟨?_, trivial, trivial⟩
  exact List.pairwise_singleton _ _

/-- Two appends, a prune of the first row, and another append. -/
def sampleRun : List TimedCall :=
  [⟨.ofDay 739000, .append utcSession sampleCall⟩,
    ⟨.ofDay 739005, .append utcSession sampleCall⟩,
    ⟨.ofDay 739006, .prune 3⟩,
    ⟨.ofDay 739007, .append utcSession sampleCall⟩]

theorem keepsAll_sampleRun :
    KeepsAll .sample .dictRow utcSession .empty sampleRun := by
  refine ⟨fun _ => ⟨rfl, sampleCall_stable, fun _ => rfl⟩,
    fun _ => ⟨rfl, sampleCall_stable, fun _ => rfl⟩,
    fun _ _ _ a ha => absurd ha List.not_mem_nil,
    fun _ => ⟨rfl, sampleCall_stable, fun h => ?_⟩, trivial⟩
  exact absurd (congrArg List.length h) (by decide)

theorem latestAnchor_sampleRun :
    LatestAnchor (run .sample .dictRow .empty sampleRun).anchors
      (run .sample .dictRow .empty sampleRun).anchors.getLast? := by
  refine ⟨List.mem_singleton_self _, fun b hb => ?_⟩
  rw [List.mem_singleton.mp hb]
  exact le_rfl

theorem verified_of_keeps_sampleRun :
    verifyAuditLogChain .sample utcSession
        (run .sample .dictRow .empty sampleRun).rows
        (run .sample .dictRow .empty sampleRun).anchors.getLast? =
      .ok (true, (run .sample .dictRow .empty sampleRun).rows.length, none) :=
  verified_of_keeps .dictRow sampleRun (by unfold ClockMonotone; decide)
    keepsAll_sampleRun sampleRun [] rfl _ latestAnchor_sampleRun

/-- A prune that removes every row, and an append. -/
def appendAfterPrune : List TimedCall :=
  [⟨.ofDay 739000, .append utcSession sampleCall⟩,
    ⟨.ofDay 739002, .prune 1⟩,
    ⟨.ofDay 739003, .append utcSession sampleCall⟩]

set_option maxRecDepth 2000 in
/-- The row after a full prune follows the genesis hash and not the boundary.
Where the prune itself fails, for want of a row factory, a single append whose
payload JSONB reorders is enough. -/
theorem append_after_prune_not_verified :
    (ClockMonotone appendAfterPrune ∧
      ∀ anchor,
        LatestAnchor (run .sample .dictRow .empty appendAfterPrune).anchors
          anchor →
        verifyAuditLogChain .sample utcSession
            (run .sample .dictRow .empty appendAfterPrune).rows anchor ≠
          .ok (true, 1, none)) ∧
    ∀ rf, verifyAuditLogChain .sample utcSession
        (run .sample rf .empty
          [⟨.ofDay 739000, .append utcSession intKeysCall⟩]).rows none ≠
      .ok (true, 1, none) := by
  refine ⟨⟨by unfold ClockMonotone; decide, fun anchor hpick => ?_⟩,
    fun rf => by cases rf <;> decide⟩
  cases anchor with
  | none => exact absurd (congrArg List.length hpick) (by decide)
  | some a =>
      have hall : ∀ a ∈ (run .sample .dictRow .empty appendAfterPrune).anchors,
          verifyAuditLogChain .sample utcSession
              (run .sample .dictRow .empty appendAfterPrune).rows (some a) ≠
            .ok (true, 1, none) := by decide
      exact hall a hpick.1

end LegionForge.Audit
