import Mathlib.Data.List.Basic
import Mathlib.Tactic.Common

/-!
# Runs of a machine driven by its inputs

A machine takes one input a step, may refuse to step, and leaves a label. Its
run on a list of inputs is the list of steps it took, with the states around
each; cutting the inputs short cuts the run short, so a statement about all
input lists is one about all prefixes of all runs.

Two rules carry the temporal statements. `since_of_invariant` proves that after
a step with `P` every later step has `Q`, from an invariant that `P` establishes
and the steps keep. `of_since` goes back: where a state can only have been
entered by a step with `P`, every step taken from it has `Q`. `Pending` is for what
lies between: a step with `P` that no step with `Q` has answered yet. How often and how
long a machine steps is bounded by a measure of its state (`countP_run_le`, `final_stuck`).
-/

structure Machine (σ ι ε : Type) where
  step : σ → ι → Option (σ × ε)

namespace Machine

/-- A step that was taken. -/
structure Entry (σ ι ε : Type) where
  before : σ
  input : ι
  label : ε
  after : σ

variable {σ ι ε : Type} (m : Machine σ ι ε)

def run : σ → List ι → List (Entry σ ι ε)
  | _, [] => []
  | s, i :: is =>
    match m.step s i with
    | none => []
    | some (s', e) => ⟨s, i, e, s'⟩ :: run s' is

/-- The state a run ends in. -/
def final (s : σ) (is : List ι) : σ :=
  match (m.run s is).getLast? with
  | none => s
  | some x => x.after

/-- The entry is a step of the machine. -/
def Steps (x : Entry σ ι ε) : Prop := m.step x.before x.input = some (x.after, x.label)

/-- Once a step has `P`, all later ones have `Q`. -/
def Since (P Q : Entry σ ι ε → Prop) (trace : List (Entry σ ι ε)) : Prop :=
  trace.Pairwise fun a b => P a → Q b

/-- A step with `P` was taken, and none with `Q` since. -/
def Pending (P Q : Entry σ ι ε → Prop) (past : List (Entry σ ι ε)) : Prop :=
  ∃ pre y mid, past = pre ++ y :: mid ∧ P y ∧ ∀ z ∈ mid, ¬ Q z

theorem not_pending_nil {P Q : Entry σ ι ε → Prop} : ¬ Pending P Q [] := by
  rintro ⟨pre, y, mid, split, -⟩
  simp at split

theorem pending_concat_iff {P Q : Entry σ ι ε → Prop} {past : List (Entry σ ι ε)}
    {x : Entry σ ι ε} : Pending P Q (past ++ [x]) ↔ P x ∨ (Pending P Q past ∧ ¬ Q x) := by
  refine ⟨?_, ?_⟩
  · rintro ⟨pre, y, mid, split, here, unanswered⟩
    rcases List.eq_nil_or_concat mid with rfl | ⟨mid, z, rfl⟩
    · obtain ⟨-, same⟩ := List.append_inj' split rfl
      cases same
      exact .inl here
    · rw [List.concat_eq_append, ← List.cons_append, ← List.append_assoc] at split
      obtain ⟨earlier, same⟩ := List.append_inj' split rfl
      cases same
      refine .inr ⟨⟨pre, y, mid, earlier, here, fun z hz => ?_⟩, ?_⟩
      · exact unanswered z (by simp [hz])
      · exact unanswered x (by simp)
  · rintro (here | ⟨⟨pre, y, mid, rfl, here, unanswered⟩, open_⟩)
    · exact ⟨past, x, [], rfl, here, fun z hz => absurd hz List.not_mem_nil⟩
    · refine ⟨pre, y, mid ++ [x], by simp, here, fun z hz => ?_⟩
      rcases List.mem_append.mp hz with old | new
      · exact unanswered z old
      · rwa [List.mem_singleton.mp new]

variable {m}

theorem run_cons_of_step {s s' : σ} {i : ι} {e : ε} {is : List ι}
    (h : m.step s i = some (s', e)) :
    m.run s (i :: is) = ⟨s, i, e, s'⟩ :: m.run s' is := by
  rw [run, h]

theorem run_cons_of_stop {s : σ} {i : ι} {is : List ι} (h : m.step s i = none) :
    m.run s (i :: is) = [] := by
  rw [run, h]

/-- A property of every step of a run, checked from its first step on. -/
theorem forall_run_cons {P : Entry σ ι ε → Prop} {s s' : σ} {i : ι} {e : ε} {is : List ι}
    (h : m.step s i = some (s', e)) (first : P ⟨s, i, e, s'⟩)
    (rest : ∀ x ∈ m.run s' is, P x) : ∀ x ∈ m.run s (i :: is), P x := by
  rw [run_cons_of_step h]
  exact List.forall_mem_cons.mpr ⟨first, rest⟩

theorem of_forall_run_cons {P : Entry σ ι ε → Prop} {s s' : σ} {i : ι} {e : ε} {is : List ι}
    (all : ∀ x ∈ m.run s (i :: is), P x) (h : m.step s i = some (s', e)) :
    P ⟨s, i, e, s'⟩ ∧ ∀ x ∈ m.run s' is, P x := by
  rw [run_cons_of_step h] at all
  exact List.forall_mem_cons.mp all

/-- Induction over a run: it is empty, or one step followed by a run. -/
theorem run_induction {motive : σ → List (Entry σ ι ε) → Prop}
    (nil : ∀ s, motive s [])
    (cons : ∀ x rest, m.Steps x → motive x.after rest → motive x.before (x :: rest))
    (s : σ) (is : List ι) : motive s (m.run s is) := by
  induction is generalizing s with
  | nil => exact nil s
  | cons i is ih =>
    cases h : m.step s i with
    | none => rw [run_cons_of_stop h]; exact nil s
    | some next =>
      rw [run_cons_of_step h]
      exact cons ⟨s, i, next.2, next.1⟩ _ h (ih next.1)

/-- What `R` steps keep holds around every step of a run of such steps. -/
theorem run_invariant_of_ok {I : σ → Prop} {R : Entry σ ι ε → Prop}
    (keep : ∀ x, m.Steps x → R x → I x.before → I x.after)
    {s : σ} {is : List ι} (init : I s) (ok : ∀ x ∈ m.run s is, R x) :
    ∀ x ∈ m.run s is, m.Steps x ∧ I x.before ∧ I x.after := by
  revert init ok
  refine run_induction (motive := fun s trace => I s → (∀ x ∈ trace, R x) →
    ∀ x ∈ trace, m.Steps x ∧ I x.before ∧ I x.after) ?_ ?_ s is
  · intro _ _ _ x hx
    cases hx
  · intro x rest step ih init ok y hy
    have kept := keep x step (ok x List.mem_cons_self) init
    rcases List.mem_cons.mp hy with rfl | hy
    · exact ⟨step, init, kept⟩
    · exact ih kept (fun z hz => ok z (List.mem_cons_of_mem _ hz)) y hy

/-- What steps keep holds around every step of a run. -/
theorem run_invariant {I : σ → Prop} (keep : ∀ x, m.Steps x → I x.before → I x.after)
    {s : σ} {is : List ι} (init : I s) :
    ∀ x ∈ m.run s is, m.Steps x ∧ I x.before ∧ I x.after :=
  run_invariant_of_ok (fun x step (_ : True) => keep x step) init fun _ _ => trivial

/-- What every step keeps, of the steps taken so far and the state they lead to, holds
before every step. -/
theorem history_invariant {I : List (Entry σ ι ε) → σ → Prop}
    (keep : ∀ past x, m.Steps x → I past x.before → I (past ++ [x]) x.after)
    {s : σ} {is : List ι} (init : I [] s) :
    ∀ past x later, m.run s is = past ++ x :: later → m.Steps x ∧ I past x.before := by
  -- the steps taken before this part of the run are carried along
  have part : ∀ s is done, I done s → ∀ past x later, m.run s is = past ++ x :: later →
      m.Steps x ∧ I (done ++ past) x.before := by
    intro s is
    refine run_induction (motive := fun s trace => ∀ done, I done s →
      ∀ past x later, trace = past ++ x :: later → m.Steps x ∧ I (done ++ past) x.before)
      ?_ ?_ s is
    · intro s done _ past x later split
      simp at split
    · intro y rest step ih done here past x later split
      cases past with
      | nil =>
        obtain ⟨rfl, -⟩ := List.cons.inj split
        rw [List.append_nil]
        exact ⟨step, here⟩
      | cons z past =>
        obtain ⟨rfl, tail⟩ := List.cons.inj split
        have next := ih (done ++ [y]) (keep done y step here) past x later tail
        rwa [List.append_assoc, List.singleton_append] at next
  intro past x later split
  have all := part s is [] init past x later split
  rwa [List.nil_append] at all

theorem steps_of_run {s : σ} {is : List ι} {past later : List (Entry σ ι ε)}
    {x : Entry σ ι ε} (split : m.run s is = past ++ x :: later) : m.Steps x :=
  (history_invariant (I := fun _ _ => True) (fun _ _ _ _ => trivial) trivial past x later
    split).1

theorem run_at {s : σ} {is : List ι} (i : Nat) (h : i < (m.run s is).length) :
    m.run s is = (m.run s is).take i ++ (m.run s is)[i] :: (m.run s is).drop (i + 1) := by
  rw [← List.drop_eq_getElem_cons h, List.take_append_drop]

/-- And it holds of the whole run and the state it ends in. -/
theorem history_final {I : List (Entry σ ι ε) → σ → Prop}
    (keep : ∀ past x, m.Steps x → I past x.before → I (past ++ [x]) x.after)
    {s : σ} {is : List ι} (init : I [] s) : I (m.run s is) (m.final s is) := by
  unfold final
  rcases List.eq_nil_or_concat (m.run s is) with none | ⟨past, x, split⟩
  · rw [none]
    exact init
  · rw [List.concat_eq_append] at split
    obtain ⟨step, here⟩ := history_invariant keep init past x [] split
    rw [split, List.getLast?_append_of_ne_nil _ (List.cons_ne_nil _ _)]
    exact keep past x step here

theorem history_run {I : List (Entry σ ι ε) → σ → Prop}
    (keep : ∀ past x, m.Steps x → I past x.before → I (past ++ [x]) x.after)
    {s : σ} {is : List ι} (init : I [] s) : ∃ s', I (m.run s is) s' :=
  ⟨_, history_final keep init⟩

/-- What holds before a step and did not at the start was brought about by an earlier step. -/
theorem history_entered {β : Type} {P : σ → β → Prop} {Q : Entry σ ι ε → β → Prop}
    (keep : ∀ x, m.Steps x → ∀ b, P x.after b → Q x b ∨ P x.before b)
    {s : σ} {is : List ι} (start : ∀ b, ¬ P s b) {past later : List (Entry σ ι ε)}
    {x : Entry σ ι ε} (split : m.run s is = past ++ x :: later) {b : β} (h : P x.before b) :
    ∃ pre y mid, past = pre ++ y :: mid ∧ Q y b := by
  have first : ∀ b, P s b → ∃ pre y mid, ([] : List (Entry σ ι ε)) = pre ++ y :: mid ∧ Q y b :=
    fun b h => absurd h (start b)
  have all := history_invariant (m := m)
    (I := fun past s => ∀ b, P s b → ∃ pre y mid, past = pre ++ y :: mid ∧ Q y b)
    (fun past x step before b after => by
      rcases keep x step b after with new | old
      · exact ⟨past, x, [], rfl, new⟩
      · obtain ⟨pre, y, mid, rfl, entered⟩ := before b old
        exact ⟨pre, y, mid ++ [x], by simp, entered⟩)
    first past x later split
  exact all.2 b h

theorem final_cons_of_step {s s' : σ} {i : ι} {e : ε} {is : List ι}
    (h : m.step s i = some (s', e)) : m.final s (i :: is) = m.final s' is := by
  unfold final
  rw [run_cons_of_step h, List.getLast?_cons]
  cases (m.run s' is).getLast? <;> rfl

/-- What follows a step is a run from the state it leads to. -/
theorem run_split {s : σ} {is : List ι} {past later : List (Entry σ ι ε)} {x : Entry σ ι ε}
    (split : m.run s is = past ++ x :: later) :
    ∃ rest, m.run x.after rest = later ∧ m.final x.after rest = m.final s is := by
  induction is generalizing s past with
  | nil => simp [run] at split
  | cons i is ih =>
    cases h : m.step s i with
    | none =>
      rw [run_cons_of_stop h] at split
      simp at split
    | some next =>
      rw [final_cons_of_step h]
      rw [run_cons_of_step h] at split
      cases past with
      | nil =>
        cases split
        exact ⟨is, rfl, rfl⟩
      | cons y past =>
        obtain ⟨-, split⟩ := List.cons.inj split
        exact ih split

theorem final_cons_of_stop {s : σ} {i : ι} {is : List ι} (h : m.step s i = none) :
    m.final s (i :: is) = s := by
  unfold final
  rw [run_cons_of_stop h]
  rfl

/-- Where steps with `p` use up a measure and no step adds to it, a run takes as many of
them as the measure allows. -/
theorem countP_run_le {I : σ → Prop} {μ : σ → Nat} {p : Entry σ ι ε → Bool}
    (keep : ∀ x, m.Steps x → I x.before →
      I x.after ∧ μ x.after + (if p x then 1 else 0) ≤ μ x.before)
    {s : σ} (is : List ι) (init : I s) :
    (m.run s is).countP p + μ (m.final s is) ≤ μ s := by
  induction is generalizing s with
  | nil => simp [run, final]
  | cons i is ih =>
    cases h : m.step s i with
    | none => simp [run_cons_of_stop h, final_cons_of_stop h]
    | some next =>
      rw [run_cons_of_step h, final_cons_of_step h, List.countP_cons]
      obtain ⟨kept, used⟩ := keep ⟨s, i, next.2, next.1⟩ h init
      have later := @ih next.1 kept
      dsimp only at used
      omega

/-- Given as many inputs as a measure that every step lowers, a run is over: the
measure is used up, or the machine refuses to go on. -/
theorem final_stuck {I : σ → Prop} {μ : σ → Nat}
    (keep : ∀ x, m.Steps x → I x.before → I x.after ∧ μ x.after < μ x.before)
    {s : σ} {is : List ι} (init : I s) (enough : μ s ≤ is.length) :
    μ (m.final s is) = 0 ∨ ∃ i, m.step (m.final s is) i = none := by
  induction is generalizing s with
  | nil => exact .inl (Nat.le_zero.mp enough)
  | cons i is ih =>
    cases h : m.step s i with
    | none =>
      rw [final_cons_of_stop h]
      exact .inr ⟨i, h⟩
    | some next =>
      rw [final_cons_of_step h]
      obtain ⟨kept, lower⟩ := keep ⟨s, i, next.2, next.1⟩ h init
      have length : (i :: is).length = is.length + 1 := rfl
      exact ih kept (by dsimp only at lower; omega)

/-- Two step properties that agree where `I` holds agree on whole runs, if a step
with the first keeps `I`. -/
theorem run_iff_of_ok {I : σ → Prop} {P Q R : Entry σ ι ε → Prop}
    (agree : ∀ x, m.Steps x → I x.before → R x → (P x ↔ Q x))
    (keep : ∀ x, m.Steps x → I x.before → R x → P x → I x.after)
    {s : σ} {is : List ι} (init : I s) (ok : ∀ x ∈ m.run s is, R x) :
    (∀ x ∈ m.run s is, P x) ↔ ∀ x ∈ m.run s is, Q x := by
  revert init ok
  refine run_induction (motive := fun s trace => I s → (∀ x ∈ trace, R x) →
    ((∀ x ∈ trace, P x) ↔ ∀ x ∈ trace, Q x)) ?_ ?_ s is
  · intro _ _ _
    refine ⟨?_, ?_⟩
    · intro _ x hx
      cases hx
    · intro _ x hx
      cases hx
  · intro x rest step ih init ok
    have okx := ok x List.mem_cons_self
    have rest (p : P x) := ih (keep x step init okx p)
      fun y hy => ok y (List.mem_cons_of_mem _ hy)
    rw [List.forall_mem_cons, List.forall_mem_cons]
    refine ⟨?_, ?_⟩
    · rintro ⟨p, later⟩
      exact ⟨(agree x step init okx).mp p, (rest p).mp later⟩
    · rintro ⟨q, later⟩
      have p := (agree x step init okx).mpr q
      exact ⟨p, (rest p).mpr later⟩

/-- The steps of a run take their inputs from the list. -/
theorem input_mem_of_run {s : σ} {is : List ι} {x : Entry σ ι ε} (hx : x ∈ m.run s is) :
    x.input ∈ is := by
  induction is generalizing s with
  | nil => cases hx
  | cons i is ih =>
    cases h : m.step s i with
    | none => rw [run_cons_of_stop h] at hx; cases hx
    | some next =>
      rw [run_cons_of_step h] at hx
      rcases List.mem_cons.mp hx with rfl | later
      · exact List.mem_cons_self
      · exact List.mem_cons_of_mem _ (ih later)

/-- `P` establishes `J`, and from a state with `J` a step that is `R` has `Q` and
keeps `J`. -/
theorem since_of_invariant {I J : σ → Prop} {P Q R : Entry σ ι ε → Prop}
    (keepI : ∀ x, m.Steps x → I x.before → I x.after)
    (enter : ∀ x, m.Steps x → I x.before → P x → J x.after)
    (keep : ∀ x, m.Steps x → I x.before → J x.before → R x → Q x ∧ J x.after)
    {s : σ} {is : List ι} (init : I s) (ok : ∀ x ∈ m.run s is, R x) :
    Since P Q (m.run s is) := by
  -- from a state with J on, every step has Q
  have after : ∀ s is, I s → J s → (∀ x ∈ m.run s is, R x) → ∀ x ∈ m.run s is, Q x := by
    intro s is
    refine run_induction (motive := fun s trace => I s → J s → (∀ x ∈ trace, R x) →
      ∀ x ∈ trace, Q x) ?_ ?_ s is
    · intro _ _ _ _ x hx
      cases hx
    · intro x rest step ih hI hJ ok y hy
      obtain ⟨q, j⟩ := keep x step hI hJ (ok x List.mem_cons_self)
      rcases List.mem_cons.mp hy with rfl | hy
      · exact q
      · exact ih (keepI x step hI) j (fun z hz => ok z (List.mem_cons_of_mem _ hz)) y hy
  revert init ok
  induction is generalizing s with
  | nil => intro _ _; exact .nil
  | cons i is ih =>
    intro init ok
    cases h : m.step s i with
    | none => rw [run_cons_of_stop h]; exact .nil
    | some next =>
      rw [run_cons_of_step h] at ok ⊢
      have step : m.Steps ⟨s, i, next.2, next.1⟩ := h
      have later : ∀ x ∈ m.run next.1 is, R x := fun x hx =>
        ok x (List.mem_cons_of_mem _ hx)
      refine .cons (fun x hx p => ?_) (ih (keepI _ step init) later)
      exact after next.1 is (keepI _ step init) (enter _ step init p) later x hx

/-- A state with `K` that was not there at the start was entered by a step with
`P`, so what is taken from it has `Q`. -/
theorem of_since {I K : σ → Prop} {P Q : Entry σ ι ε → Prop}
    (keepI : ∀ x, m.Steps x → I x.before → I x.after)
    (enter : ∀ x, m.Steps x → I x.before → ¬ K x.before → K x.after → P x)
    {s : σ} {is : List ι} (init : I s) (start : ¬ K s) (since : Since P Q (m.run s is)) :
    ∀ x ∈ m.run s is, K x.before → Q x := by
  -- either P has happened before this part of the run, or K does not hold at its start
  have part : ∀ s is, I s → (K s → ∀ x ∈ m.run s is, Q x) → Since P Q (m.run s is) →
      ∀ x ∈ m.run s is, K x.before → Q x := by
    intro s is
    refine run_induction (motive := fun s trace => I s → (K s → ∀ x ∈ trace, Q x) →
      Since P Q trace → ∀ x ∈ trace, K x.before → Q x) ?_ ?_ s is
    · intro _ _ _ _ x hx
      cases hx
    · intro x rest step ih hI inside since y hy k
      obtain ⟨first, since⟩ := List.pairwise_cons.mp since
      rcases List.mem_cons.mp hy with rfl | hy
      · exact inside k _ List.mem_cons_self
      · refine ih (keepI x step hI) (fun kAfter z hz => ?_) since y hy k
        by_cases kBefore : K x.before
        · exact inside kBefore z (List.mem_cons_of_mem _ hz)
        · exact first z hz (enter x step hI kBefore kAfter)
  exact part s is init (fun k => absurd k start) since

end Machine
