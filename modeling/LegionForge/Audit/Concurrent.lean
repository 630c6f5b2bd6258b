import LegionForge.Audit.Runs
import Mathlib.Data.Fintype.Card
import Mathlib.Tactic.FinCases

/-!
# Appends that overlap

`append_audit_log` reads the hash to follow in one statement and inserts in a
later one, and takes no lock in between. Here any number of calls run step by
step in any order: a call reads, then inserts its row, then stores the row's
hash, and its row becomes visible to the others either at once (the pools are
opened with autocommit) or at the end (one transaction for the call).

A call that reads while no other one is between its read and its end extends
the chain as a call on its own would, whatever runs later. If all calls do, the
log holds one row for each and verifies (`verified_of_alone`). Two calls that
read the same row do not.
-/

namespace LegionForge.Audit

/-- When the statements of a call are committed. -/
inductive CommitMode where
  | autocommit
  | transaction

/-- One call to `append_audit_log`, with the session it runs in and the time it
takes for its row. -/
structure Writer where
  tz : SessionTz
  now : Instant
  call : AppendCall

/-- How far a call has come. -/
inductive WriterState where
  | idle
  /-- has read the hash to follow -/
  | read (prev : String)
  /-- has inserted its row and computed the hash for it -/
  | inserted (row : Row)
  | done
  | failed

def WriterState.active : WriterState → Prop
  | .read _ | .inserted _ => True
  | _ => False

def WriterState.isDone : WriterState → Bool
  | .done => true
  | _ => false

/-- `audit_log` as committed, the sequence behind `seq`, and the calls. -/
structure World (n : Nat) where
  rows : List Row
  nextSeq : Int
  writers : Fin n → WriterState

def World.start (n : Nat) : World n := ⟨[], 1, fun _ => .idle⟩

def World.set {n : Nat} (w : World n) (i : Fin n) (s : WriterState) : World n :=
  { w with writers := Function.update w.writers i s }

section

variable (P : Platform) (mode : CommitMode) {n : Nat} (writers : Fin n → Writer)

/-- The row a call inserts; its hash is known only after the insert. -/
def Writer.row (c : Writer) (seq : Int) (prev : String) : Row :=
  insertedRow P c.tz c.now c.call seq prev

def writerStep (w : World n) (i : Fin n) : World n :=
  match w.writers i with
  | .idle => w.set i (.read (prevHashOf P w.rows))
  | .read prev =>
      match insertError P (writers i).call with
      | some .checkViolation => { w.set i .failed with nextSeq := w.nextSeq + 1 }
      | some _ => w.set i .failed
      | none =>
          let row := (writers i).row P w.nextSeq prev
          { w.set i (.inserted row) with
            nextSeq := w.nextSeq + 1
            rows :=
              match mode with
              | .autocommit => w.rows ++ [{ row with rowHash := "PENDING" }]
              | .transaction => w.rows }
  | .inserted row =>
      { w.set i .done with
        rows :=
          match mode with
          | .autocommit => w.rows.map fun r =>
              if r.seq = row.seq then { r with rowHash := row.rowHash } else r
          | .transaction => w.rows ++ [row] }
  | .done | .failed => w

def runSchedule (w : World n) (schedule : List (Fin n)) : World n :=
  schedule.foldl (writerStep P mode writers) w

/-- The step is none of a call that starts to read while another one is under
way, nor of one whose row a verifier in zone `tz` cannot recompute. -/
def Alone (tz : SessionTz) (w : World n) (i : Fin n) : Prop :=
  (w.writers i = .idle → ∀ j, ¬ (w.writers j).active) ∧
    (writers i).tz (writers i).now = tz (writers i).now ∧
      (writers i).call.Stable P

def AloneAll (tz : SessionTz) : World n → List (Fin n) → Prop
  | _, [] => True
  | w, i :: schedule =>
      Alone P writers tz w i ∧ AloneAll tz (writerStep P mode writers w i) schedule

def World.doneCount (w : World n) : Nat :=
  (Finset.univ.filter fun i => (w.writers i).isDone = true).card

/-! ## The invariant

`base` are the rows of the calls that have ended. At most one call is under
way, and what it has read or inserted continues `base`. -/

/-- Where the call under way stands, if there is one. -/
inductive Phase (w : World n) (base : List Row) (seq : Int) : Prop where
  | quiet (hrows : w.rows = base) (hseq : w.nextSeq = seq)
      (hidle : ∀ j, ¬ (w.writers j).active)
  | reading (i : Fin n) (hrows : w.rows = base) (hseq : w.nextSeq = seq)
      (hi : w.writers i = .read (prevHashOf P base))
      (hidle : ∀ j, j ≠ i → ¬ (w.writers j).active)
  | writing (i : Fin n)
      (hrows : w.rows =
        match mode with
        | .autocommit =>
            base ++ [{ (writers i).row P seq (prevHashOf P base) with
              rowHash := "PENDING" }]
        | .transaction => base)
      (hseq : w.nextSeq = seq + 1)
      (hi : w.writers i = .inserted ((writers i).row P seq (prevHashOf P base)))
      (hidle : ∀ j, j ≠ i → ¬ (w.writers j).active)

/-- The calls that have ended left a chain, one row each. -/
def SerialInv (tz : SessionTz) (w : World n) : Prop :=
  ∃ base seq, ChainInv P tz ⟨base, [], seq⟩ 0 ∧ base.length = w.doneCount ∧
    Phase P mode writers w base seq

variable {P mode writers}

theorem set_writers_self (w : World n) (i : Fin n) (s : WriterState) :
    (w.set i s).writers i = s := Function.update_self ..

theorem set_writers_ne {w : World n} {i j : Fin n} {s : WriterState}
    (h : j ≠ i) : (w.set i s).writers j = w.writers j :=
  Function.update_of_ne h ..

theorem idle_set {w : World n} {i j : Fin n} {s : WriterState} (hj : j ≠ i)
    (h : ¬ (w.writers j).active) : ¬ ((w.set i s).writers j).active := by
  rw [set_writers_ne hj]
  exact h

theorem doneCount_set_eq {w : World n} {i : Fin n} {s : WriterState}
    (h : (w.writers i).isDone = s.isDone) :
    (w.set i s).doneCount = w.doneCount := by
  unfold World.doneCount
  congr 2
  funext j
  by_cases hj : j = i
  · rw [hj, set_writers_self, h]
  · rw [set_writers_ne hj]

theorem doneCount_set_done {w : World n} {i : Fin n}
    (h : (w.writers i).isDone = false) :
    (w.set i .done).doneCount = w.doneCount + 1 := by
  unfold World.doneCount
  rw [← Finset.card_insert_of_notMem (a := i) (by simp [h])]
  congr 1
  ext j
  by_cases hj : j = i
  · subst hj
    have hj : ((w.set j .done).writers j).isDone = true := by
      rw [set_writers_self]
      rfl
    simp [hj]
  · rw [Finset.mem_filter, Finset.mem_insert, Finset.mem_filter,
      set_writers_ne hj]
    exact ⟨Or.inr, fun h => h.resolve_left hj⟩

/-- The row under way goes by its own sequence number. -/
theorem map_update_hash {tz : SessionTz} {base : List Row} {seq : Int}
    (h : ChainInv P tz ⟨base, [], seq⟩ 0) {row : Row} (hseq : row.seq = seq) :
    (base ++ [{ row with rowHash := "PENDING" }]).map (fun r : Row =>
        if r.seq = row.seq then { r with rowHash := row.rowHash } else r) =
      base ++ [row] := by
  have hbase : base.map (fun r : Row =>
      if r.seq = row.seq then { r with rowHash := row.rowHash } else r) = base := by
    refine (List.map_congr_left fun r hr => ?_).trans (List.map_id base)
    rw [hseq, if_neg (h.fresh r hr).ne]
    rfl
  rw [List.map_append, hbase, List.map_singleton, if_pos rfl]

theorem SerialInv.step {tz : SessionTz}
    (hok : ∀ j, insertError P (writers j).call = none) {w : World n} {i : Fin n}
    (h : SerialInv P mode writers tz w) (halone : Alone P writers tz w i) :
    SerialInv P mode writers tz (writerStep P mode writers w i) := by
  obtain ⟨base, seq, hchain, hcount, hphase⟩ := h
  unfold writerStep
  split
  · next hi =>
      -- A call starts: no other one is under way.
      have hquiet := halone.1 hi
      cases hphase with
      | reading j _ _ hj => exact absurd (by rw [hj]; trivial) (hquiet j)
      | writing j _ _ hj => exact absurd (by rw [hj]; trivial) (hquiet j)
      | quiet hrows hseq _ =>
          refine ⟨base, seq, hchain, ?_, .reading i hrows hseq ?_ ?_⟩
          · rw [hcount, doneCount_set_eq (by rw [hi]; rfl)]
          · rw [set_writers_self, hrows]
          · intro j hj
            rw [set_writers_ne hj]
            exact hquiet j
  · next prev hi =>
      have hactive : (w.writers i).active := by rw [hi]; trivial
      rw [hok i]
      simp only
      cases hphase with
      | quiet _ _ hidle => exact absurd hactive (hidle i)
      | writing j _ _ hj hidle =>
          by_cases hij : i = j
          · rw [← hij, hi] at hj
            cases hj
          · exact absurd hactive (hidle i hij)
      | reading j hrows hseq hj hidle =>
          by_cases hij : i = j
          · subst hij
            have hprev := hi.symm.trans hj
            injection hprev with hprev
            subst hprev
            refine ⟨base, seq, hchain, ?_, .writing i ?_ ?_ ?_ ?_⟩
            · exact hcount.trans (doneCount_set_eq (by rw [hi]; rfl)).symm
            · cases mode <;> simp only [hrows, hseq]
            · simp only [hseq]
            · exact (set_writers_self ..).trans (by rw [hseq])
            · intro k hk
              exact idle_set hk (hidle k hk)
          · exact absurd hactive (hidle i hij)
  · next row hi =>
      have hactive : (w.writers i).active := by rw [hi]; trivial
      cases hphase with
      | quiet _ _ hidle => exact absurd hactive (hidle i)
      | reading j _ _ hj hidle =>
          by_cases hij : i = j
          · rw [← hij, hi] at hj
            cases hj
          · exact absurd hactive (hidle i hij)
      | writing j hrows hseq hj hidle =>
          by_cases hij : i = j
          · subst hij
            have hrow := hi.symm.trans hj
            injection hrow with hrow
            have hnext := (hchain.mono (Nat.zero_le (writers i).now.micros)).append
              (hok i) halone.2.1 halone.2.2 fun _ => rfl
            refine ⟨base ++ [row], seq + 1, ?_, ?_, .quiet ?_ ?_ ?_⟩
            · rw [hrow]
              exact { hnext with past := fun a ha => absurd ha List.not_mem_nil }
            · rw [List.length_append, hcount]
              exact (doneCount_set_done (by rw [hi]; rfl)).symm
            · cases mode with
              | autocommit =>
                  simp only [hrows, ← hrow]
                  exact map_update_hash hchain (congrArg Row.seq hrow)
              | transaction => simp only [hrows]
            · exact hseq
            · intro k
              by_cases hk : k = i
              · rw [hk]
                show ¬ ((w.set i .done).writers i).active
                rw [set_writers_self]
                exact id
              · exact idle_set hk (hidle k hk)
          · exact absurd hactive (hidle i hij)
  · exact ⟨base, seq, hchain, hcount, hphase⟩
  · exact ⟨base, seq, hchain, hcount, hphase⟩

theorem serialInv_start (tz : SessionTz) :
    SerialInv P mode writers tz (World.start n) := by
  refine ⟨[], 1, chainInv_empty 0, ?_, .quiet rfl rfl fun _ h => h⟩
  simp [World.doneCount, World.start, WriterState.isDone]

theorem SerialInv.run {tz : SessionTz}
    (hok : ∀ j, insertError P (writers j).call = none) {w : World n}
    {schedule : List (Fin n)} (h : SerialInv P mode writers tz w)
    (halone : AloneAll P mode writers tz w schedule) :
    SerialInv P mode writers tz (runSchedule P mode writers w schedule) := by
  induction schedule generalizing w with
  | nil => exact h
  | cons i schedule ih => exact ih (h.step hok halone.1) halone.2

/-- Whatever order the steps of the calls come in, as long as no call starts
to read while another one is under way: once all have committed there is one
row for each call and the chain verifies. -/
theorem verified_of_alone (mode : CommitMode) (tz : SessionTz)
    (hok : ∀ j, insertError P (writers j).call = none) (schedule : List (Fin n))
    (halone : AloneAll P mode writers tz (World.start n) schedule)
    (hdone : ∀ j, (runSchedule P mode writers (World.start n) schedule).writers j
      = .done) :
    (runSchedule P mode writers (World.start n) schedule).rows.length = n ∧
      verifyAuditLogChain P tz
          (runSchedule P mode writers (World.start n) schedule).rows none =
        .ok (true, n, none) := by
  have hinv : SerialInv P mode writers tz _ :=
    (serialInv_start tz).run hok halone
  generalize runSchedule P mode writers (World.start n) schedule = w at hinv hdone
  obtain ⟨base, seq, hchain, hcount, hphase⟩ := hinv
  have hn : base.length = n := by
    rw [hcount, World.doneCount, Finset.filter_true_of_mem, Finset.card_univ,
      Fintype.card_fin]
    intro j _
    rw [hdone j]
    rfl
  cases hphase with
  | quiet hrows _ _ =>
      rw [hrows]
      refine ⟨hn, ?_⟩
      have hnone : LatestAnchor [] none := rfl
      rw [hchain.verified hnone, hn]
  | reading i _ _ hi _ => exact absurd (hi.symm.trans (hdone i)) (by simp)
  | writing i _ _ hi _ => exact absurd (hi.symm.trans (hdone i)) (by simp)

end

def sampleWriters (i : Fin 2) : Writer :=
  ⟨utcSession, .ofDay (739000 + i.val), sampleCall⟩

theorem aloneAll_sampleWriters : AloneAll .sample .autocommit sampleWriters
    utcSession (World.start 2) [0, 0, 0, 1, 1, 1] := by
  have hrow : ∀ i, (sampleWriters i).tz (sampleWriters i).now =
      utcSession (sampleWriters i).now ∧
        (sampleWriters i).call.Stable .sample :=
    fun _ => ⟨rfl, sampleCall_stable⟩
  refine ⟨⟨fun _ j => ?_, hrow 0⟩, ⟨fun h => ?_, hrow 0⟩, ⟨fun h => ?_, hrow 0⟩,
    ⟨fun _ j => ?_, hrow 1⟩, ⟨fun h => ?_, hrow 1⟩, ⟨fun h => ?_, hrow 1⟩, trivial⟩
  · exact id
  · cases h
  · cases h
  · fin_cases j <;> exact id
  · cases h
  · cases h

theorem verified_of_alone_sampleWriters :
    (runSchedule .sample .autocommit sampleWriters (World.start 2)
        [0, 0, 0, 1, 1, 1]).rows.length = 2 ∧
      verifyAuditLogChain .sample utcSession
          (runSchedule .sample .autocommit sampleWriters (World.start 2)
            [0, 0, 0, 1, 1, 1]).rows none =
        .ok (true, 2, none) :=
  verified_of_alone .autocommit utcSession
    (fun _ => show insertError .sample sampleCall = none by decide)
    [0, 0, 0, 1, 1, 1] aloneAll_sampleWriters (fun j => by fin_cases j <;> rfl)

set_option maxRecDepth 2000 in
/-- Two calls that both read the empty log before either inserts: their rows
follow the same hash, and the second is reported broken. -/
theorem overlapping_appends_not_verified :
    (∀ mode j, (runSchedule .sample mode sampleWriters (World.start 2)
        [0, 1, 0, 1, 0, 1]).writers j = .done) ∧
      ¬ ∃ mode, verifyAuditLogChain .sample utcSession
          (runSchedule .sample mode sampleWriters (World.start 2)
            [0, 1, 0, 1, 0, 1]).rows none =
        .ok (true, 2, none) := by
  refine ⟨?_, ?_⟩
  · intro mode j
    cases mode <;> fin_cases j <;> rfl
  · rintro ⟨mode, h⟩
    cases mode <;> exact absurd h (by decide)

end LegionForge.Audit
