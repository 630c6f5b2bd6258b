import Mathlib.Data.List.Basic
import Mathlib.Logic.Function.Basic
import Mathlib.Tactic.Common

/-!
# Sliding-window limiters

A limiter keeps, for every key, the times at which it let an input of that key through,
and refuses an input when so many of them are still within the window as the limit allows.
Buckets do not influence each other (`run_filter`), no window holds more than the limit
(`let_through_le`), an input is refused only where the window before it holds that many
(`refused_full`), and as many inputs as the limit allows do get through at once
(`run_burst`), so what a key is made of decides what the limiter limits.
-/

namespace SlidingWindow

/-- What a limiter reads off its inputs: the time, and the bucket with its limit. An
input with neither is let through. -/
structure Limiter (κ α : Type) where
  width : Int
  now : α → Int
  ask : α → Option (κ × Nat)

/-- The times let through, by key; a key that is missing has none. -/
abbrev Windows (κ : Type) := κ → List Int

namespace Limiter

section
variable {κ α : Type} (l : Limiter κ α)

/-- A time that still counts when the input comes. -/
def counts (x : α) (t : Int) : Bool := decide (l.now x - t < l.width)

def key (x : α) : Option κ := (l.ask x).map (·.1)

/-- Two inputs that are counted together. -/
def Share (x y : α) : Prop := ∃ k, l.key x = some k ∧ l.key y = some k

/-- The time lies in the window that starts at `s`. -/
def inWindow (s t : Int) : Bool := decide (s ≤ t) && decide (t < s + l.width)

variable {l}

theorem key_of_ask {x : α} {k : κ} {limit : Nat} (ask : l.ask x = some (k, limit)) :
    l.key x = some k := by
  rw [key, ask]
  rfl

/-- What counts for a later input counts for an earlier one. -/
theorem filter_counts {x y : α} (le : l.now x ≤ l.now y) (times : List Int) :
    (times.filter (l.counts x)).filter (l.counts y) = times.filter (l.counts y) := by
  rw [List.filter_filter]
  refine List.filter_congr fun t _ => ?_
  unfold counts
  rw [Bool.eq_iff_iff, Bool.and_eq_true, decide_eq_true_eq, decide_eq_true_eq]
  omega

theorem counts_now (width : 0 < l.width) (x : α) : l.counts x (l.now x) = true := by
  unfold counts
  rw [decide_eq_true_eq]
  omega

end

variable {κ α : Type} [DecidableEq κ] (l : Limiter κ α)

def serve (w : Windows κ) (x : α) : Windows κ × Bool :=
  match l.ask x with
  | none => (w, true)
  | some (k, limit) =>
    let kept := (w k).filter (l.counts x)
    if limit ≤ kept.length then (Function.update w k kept, false)
    else (Function.update w k (kept ++ [l.now x]), true)

/-- Every input with whether it is let through. -/
def run : Windows κ → List α → List (α × Bool)
  | _, [] => []
  | w, x :: xs => (x, (l.serve w x).2) :: run (l.serve w x).1 xs

def after (w : Windows κ) (xs : List α) : Windows κ := xs.foldl (fun w x => (l.serve w x).1) w

/-- The times at which inputs of the key were let through. -/
def letThrough (k : κ) (answers : List (α × Bool)) : List Int :=
  (answers.filter fun a => a.2 && decide (l.key a.1 = some k)).map fun a => l.now a.1

variable {l}

/-! ## Buckets -/

theorem serve_of_ask {w : Windows κ} {x : α} {k : κ} {limit : Nat}
    (ask : l.ask x = some (k, limit)) :
    l.serve w x =
      if limit ≤ ((w k).filter (l.counts x)).length then
        (Function.update w k ((w k).filter (l.counts x)), false)
      else (Function.update w k ((w k).filter (l.counts x) ++ [l.now x]), true) := by
  simp only [serve, ask]

/-- The bucket of another key is left alone. -/
theorem serve_other {w : Windows κ} {x : α} {k : κ} (other : l.key x ≠ some k) :
    (l.serve w x).1 k = w k := by
  unfold serve
  cases ask : l.ask x with
  | none => rfl
  | some bucket =>
    have ne : k ≠ bucket.1 := fun same => other (by rw [key, ask, Option.map_some, same])
    dsimp only
    split <;> exact Function.update_of_ne ne _ _

/-- An answer depends on the input's own bucket, and so does what is left in it. -/
theorem serve_congr {w w' : Windows κ} {x : α} (same : ∀ k, l.key x = some k → w k = w' k) :
    (l.serve w x).2 = (l.serve w' x).2 ∧
      ∀ k, l.key x = some k → (l.serve w x).1 k = (l.serve w' x).1 k := by
  unfold serve
  cases ask : l.ask x with
  | none => exact ⟨rfl, same⟩
  | some bucket =>
    obtain ⟨k, limit⟩ := bucket
    have bucket := same k (key_of_ask ask)
    dsimp only
    rw [bucket]
    constructor
    · split <;> rfl
    · intro k' key'
      rw [key_of_ask ask] at key'
      cases key'
      split
      all_goals
        dsimp only
        rw [Function.update_self, Function.update_self]

/-- Inputs that share no bucket with the others are answered as if these did not come. -/
theorem run_filter {p : α → Bool} (xs : List α) : ∀ {w w' : Windows κ},
    (∀ x ∈ xs, ∀ y ∈ xs, p x = true → p y = false → ¬ l.Share x y) →
    (∀ x ∈ xs, p x = true → ∀ k, l.key x = some k → w k = w' k) →
    (l.run w xs).filter (fun a => p a.1) = l.run w' (xs.filter p) := by
  induction xs with
  | nil => intro w w' _ _; rfl
  | cons x xs ih =>
    intro w w' apart same
    have apart' := fun y hy z hz =>
      apart y (List.mem_cons_of_mem x hy) z (List.mem_cons_of_mem x hz)
    cases mine : p x with
    | true =>
      obtain ⟨answer, left⟩ := serve_congr (same x List.mem_cons_self mine)
      rw [run, List.filter_cons_of_pos (by exact mine), List.filter_cons_of_pos mine, run, answer]
      refine congrArg _ (ih apart' fun y hy hp k key => ?_)
      by_cases shared : l.key x = some k
      · exact left k shared
      · rw [serve_other shared, serve_other shared]
        exact same y (List.mem_cons_of_mem x hy) hp k key
    | false =>
      rw [run, List.filter_cons_of_neg (by simp [mine]), List.filter_cons_of_neg (by simp [mine])]
      refine ih apart' fun y hy hp k key => ?_
      have other : l.key x ≠ some k := fun shared =>
        apart y (List.mem_cons_of_mem x hy) x List.mem_cons_self hp mine ⟨k, key, shared⟩
      rw [serve_other other]
      exact same y (List.mem_cons_of_mem x hy) hp k key

theorem fst_mem_of_run {xs : List α} {a : α × Bool} : ∀ {w : Windows κ}, a ∈ l.run w xs →
    a.1 ∈ xs := by
  induction xs with
  | nil => intro w mem; cases mem
  | cons x xs ih =>
    intro w mem
    rcases List.mem_cons.mp mem with rfl | mem
    · exact List.mem_cons_self
    · exact List.mem_cons_of_mem x (ih mem)

/-! ## The bound -/

omit [DecidableEq κ] in
/-- What lies in a window with the time of an input still counts for it. -/
theorem inWindow_le_counts {x : α} {s : Int} (past : List Int)
    (inside : l.inWindow s (l.now x) = true) :
    (past.filter (l.inWindow s)).length ≤ (past.filter (l.counts x)).length := by
  refine (List.monotone_filter_right past fun t ht => ?_).length_le
  rw [inWindow, Bool.and_eq_true, decide_eq_true_eq, decide_eq_true_eq] at inside ht
  rw [counts, decide_eq_true_eq]
  omega

/-- Together with the times `past` that were let through before, no window holds more than
the limit. The bucket holds those of `past` that still count. -/
theorem let_through_append_le {k : κ} {limit : Nat} (xs : List α) :
    ∀ {w : Windows κ} {past : List Int},
    xs.Pairwise (fun x y => l.now x ≤ l.now y) →
    (∀ x ∈ xs, ∀ n, l.ask x = some (k, n) → n ≤ limit) →
    (∀ x ∈ xs, (w k).filter (l.counts x) = past.filter (l.counts x)) →
    (∀ x ∈ xs, ∀ t ∈ past, t ≤ l.now x) →
    (∀ s, (past.filter (l.inWindow s)).length ≤ limit) →
    ∀ s, ((past ++ l.letThrough k (l.run w xs)).filter (l.inWindow s)).length ≤ limit := by
  induction xs with
  | nil =>
    intro w past _ _ _ _ bound s
    rw [run, letThrough, List.filter_nil, List.map_nil, List.append_nil]
    exact bound s
  | cons x xs ih =>
    intro w past sorted limits bucket before bound s
    obtain ⟨first, sorted⟩ := List.pairwise_cons.mp sorted
    have limits' := fun y hy => limits y (List.mem_cons_of_mem x hy)
    have bucket' := fun y hy => bucket y (List.mem_cons_of_mem x hy)
    have before' := fun y hy => before y (List.mem_cons_of_mem x hy)
    rw [run]
    by_cases mine : l.key x = some k
    · obtain ⟨⟨k', n⟩, ask, same⟩ := Option.map_eq_some_iff.mp mine
      dsimp only at same
      subst same
      have low := limits x List.mem_cons_self n ask
      have here := bucket x List.mem_cons_self
      rw [serve_of_ask ask, here]
      split
      · -- refused: nothing is added, the bucket only forgets
        rw [letThrough, List.filter_cons_of_neg (by simp)]
        refine ih sorted limits' (fun y hy => ?_) before' bound s
        dsimp only
        rw [Function.update_self, filter_counts (first y hy)]
      · next room =>
        rw [letThrough, List.filter_cons_of_pos (by simp [mine]), List.map_cons,
          List.append_cons]
        refine ih sorted limits' (fun y hy => ?_) (fun y hy t ht => ?_) (fun s => ?_) s
        · dsimp only
          rw [Function.update_self, List.filter_append, List.filter_append,
            filter_counts (first y hy)]
        · rcases List.mem_append.mp ht with ht | ht
          · exact before' y hy t ht
          · rw [List.mem_singleton.mp ht]
            exact first y hy
        · dsimp only
          rw [List.filter_append, List.length_append]
          by_cases inside : l.inWindow s (l.now x) = true
          · have still := inWindow_le_counts past inside
            have one : ([l.now x].filter (l.inWindow s)).length ≤ 1 := List.length_filter_le _ _
            omega
          · rw [List.filter_cons_of_neg inside]
            exact bound s
    · rw [letThrough, List.filter_cons_of_neg (by simp [mine])]
      refine ih sorted limits' (fun y hy => ?_) before' bound s
      rw [serve_other mine]
      exact bucket' y hy

/-- In order of time, and from empty buckets, no window holds more inputs of a key than
the limit. -/
theorem let_through_le {k : κ} {limit : Nat} {xs : List α}
    (sorted : xs.Pairwise fun x y => l.now x ≤ l.now y)
    (limits : ∀ x ∈ xs, ∀ n, l.ask x = some (k, n) → n ≤ limit) (s : Int) :
    ((l.letThrough k (l.run (fun _ => []) xs)).filter (l.inWindow s)).length ≤ limit := by
  have all := @let_through_append_le κ α _ l k limit xs (fun _ => []) [] sorted limits
    (fun _ _ => rfl) (fun _ _ _ mem => by cases mem) (fun _ => Nat.zero_le limit) s
  rwa [List.nil_append] at all

/-- The same for any count of answers that only looks at inputs of the key. -/
theorem count_passed_le {k : κ} {limit : Nat} {xs : List α} {p : α × Bool → Bool} {s : Int}
    (sorted : xs.Pairwise fun x y => l.now x ≤ l.now y)
    (limits : ∀ x ∈ xs, ∀ n, l.ask x = some (k, n) → n ≤ limit)
    (counted : ∀ a ∈ l.run (fun _ => []) xs, p a = true →
      a.2 = true ∧ l.key a.1 = some k ∧ l.inWindow s (l.now a.1) = true) :
    ((l.run (fun _ => []) xs).filter p).length ≤ limit := by
  refine Nat.le_trans ?_ (let_through_le sorted limits s)
  rw [letThrough, ← List.countP_eq_length_filter, ← List.countP_eq_length_filter,
    List.countP_map, List.countP_filter]
  refine List.countP_mono_left fun a mem pass => ?_
  obtain ⟨passed, key, inside⟩ := counted a mem pass
  rw [Function.comp_apply, inside, passed, decide_eq_true key]
  rfl

/-! ## Bursts -/

theorem run_append (xs ys : List α) : ∀ w : Windows κ,
    l.run w (xs ++ ys) = l.run w xs ++ l.run (l.after w xs) ys := by
  induction xs with
  | nil => intro w; rfl
  | cons x xs ih =>
    intro w
    rw [List.cons_append, run, ih, run, List.cons_append]
    rfl

/-- While there is room, repetitions of an input are let through. -/
theorem run_burst {x : α} {k : κ} {limit : Nat} (ask : l.ask x = some (k, limit))
    (width : 0 < l.width) (n : Nat) : ∀ {w : Windows κ} {m : Nat},
    w k = List.replicate m (l.now x) → m + n ≤ limit →
    l.run w (List.replicate n x) = List.replicate n (x, true) ∧
      l.after w (List.replicate n x) =
        Function.update w k (List.replicate (m + n) (l.now x)) := by
  induction n with
  | zero =>
    intro w m bucket _
    refine ⟨rfl, ?_⟩
    rw [Nat.add_zero, ← bucket, Function.update_eq_self]
    rfl
  | succ n ih =>
    intro w m bucket room
    have kept : (w k).filter (l.counts x) = List.replicate m (l.now x) := by
      rw [bucket, List.filter_eq_self]
      intro t mem
      rw [List.eq_of_mem_replicate mem]
      exact counts_now width x
    have step : l.serve w x =
        (Function.update w k (List.replicate (m + 1) (l.now x)), true) := by
      rw [serve_of_ask ask, kept, List.length_replicate, if_neg (by omega),
        List.replicate_succ']
    obtain ⟨answers, left⟩ := @ih (Function.update w k (List.replicate (m + 1) (l.now x)))
      (m + 1) (Function.update_self _ _ _) (by omega)
    rw [List.replicate_succ, run, step, answers]
    refine ⟨rfl, ?_⟩
    rw [after, List.foldl_cons, step]
    refine left.trans ?_
    rw [Function.update_idem, Nat.add_right_comm, Nat.add_assoc]

/-- With the window full an input of the key is refused. -/
theorem serve_full {w : Windows κ} {x : α} {k : κ} {limit : Nat}
    (ask : l.ask x = some (k, limit)) (width : 0 < l.width)
    (full : w k = List.replicate limit (l.now x)) : (l.serve w x).2 = false := by
  have kept : (w k).filter (l.counts x) = List.replicate limit (l.now x) := by
    rw [full, List.filter_eq_self]
    intro t mem
    rw [List.eq_of_mem_replicate mem]
    exact counts_now width x
  rw [serve_of_ask ask, kept, List.length_replicate, if_pos (Nat.le_refl limit)]

/-! ## Refusals -/

/-- An answer in a run is given by what the inputs before it have left. -/
theorem run_split {x : α} {ok : Bool} {later : List (α × Bool)} : ∀ {past : List (α × Bool)}
    {xs : List α} {w : Windows κ}, l.run w xs = past ++ (x, ok) :: later →
    ∃ before behind, xs = before ++ x :: behind ∧ l.run w before = past ∧
      (l.serve (l.after w before) x).2 = ok := by
  intro past
  induction past with
  | nil =>
    intro xs w h
    cases xs with
    | nil => cases h
    | cons y ys =>
      rw [run, List.nil_append, List.cons.injEq, Prod.mk.injEq] at h
      obtain ⟨⟨rfl, answer⟩, -⟩ := h
      exact ⟨[], ys, rfl, rfl, answer⟩
  | cons a past ih =>
    intro xs w h
    cases xs with
    | nil => cases h
    | cons y ys =>
      rw [run, List.cons_append, List.cons.injEq] at h
      obtain ⟨rfl, h⟩ := h
      obtain ⟨before, behind, rfl, earlier, answer⟩ := ih h
      exact ⟨y :: before, behind, rfl, by rw [run, earlier], answer⟩

/-- In order of time: of the times let through so far the bucket holds those that still
count. With `past` those from before the first of `xs`. -/
theorem after_counts {k : κ} {x : α} (xs : List α) : ∀ {w : Windows κ} {past : List Int},
    (xs ++ [x]).Pairwise (fun x y => l.now x ≤ l.now y) →
    (∀ y ∈ xs ++ [x], (w k).filter (l.counts y) = past.filter (l.counts y)) →
    (l.after w xs k).filter (l.counts x) =
      (past ++ l.letThrough k (l.run w xs)).filter (l.counts x) := by
  induction xs with
  | nil =>
    intro w past _ bucket
    rw [run, letThrough, List.filter_nil, List.map_nil, List.append_nil]
    exact bucket x List.mem_cons_self
  | cons y ys ih =>
    intro w past sorted bucket
    obtain ⟨first, sorted⟩ := List.pairwise_cons.mp sorted
    have here := bucket y List.mem_cons_self
    show (l.after (l.serve w y).1 ys k).filter (l.counts x) = _
    by_cases mine : l.key y = some k
    · obtain ⟨⟨k', limit⟩, ask, same⟩ := Option.map_eq_some_iff.mp mine
      dsimp only at same
      subst same
      have step := serve_of_ask (w := w) ask
      rw [here] at step
      rw [run]
      split at step
      · rw [step, letThrough, List.filter_cons_of_neg (by simp)]
        refine ih sorted fun z hz => ?_
        dsimp only
        rw [Function.update_self, filter_counts (first z hz)]
      · rw [step, letThrough, List.filter_cons_of_pos (by simp [mine]), List.map_cons,
          List.append_cons past]
        refine ih sorted fun z hz => ?_
        dsimp only
        rw [Function.update_self, List.filter_append, List.filter_append,
          filter_counts (first z hz)]
    · rw [run, letThrough, List.filter_cons_of_neg (by simp [mine])]
      refine ih sorted fun z hz => ?_
      rw [serve_other mine]
      exact bucket z (List.mem_cons_of_mem y hz)

/-- In order of time and from empty buckets, an input is refused where as many of its key
as the limit allows were let through that still count, and no more. -/
theorem refused_full {k : κ} {limit : Nat} {xs : List α} {past later : List (α × Bool)} {x : α}
    (sorted : xs.Pairwise fun x y => l.now x ≤ l.now y)
    (limits : ∀ y ∈ xs, ∀ n, l.ask y = some (k, n) → n ≤ limit)
    (ask : l.ask x = some (k, limit))
    (refused : l.run (fun _ => []) xs = past ++ (x, false) :: later) :
    ((l.letThrough k past).filter (l.counts x)).length = limit ∧
      ∀ t ∈ l.letThrough k past, t ≤ l.now x := by
  obtain ⟨before, behind, rfl, earlier, answer⟩ := run_split refused
  have upto : (before ++ [x]).Pairwise fun x y => l.now x ≤ l.now y :=
    sorted.sublist (by simp)
  have older : ∀ t ∈ l.letThrough k past, t ≤ l.now x := by
    intro t mem
    obtain ⟨a, passed, rfl⟩ := List.mem_map.mp mem
    have came : a.1 ∈ before := by
      have answered := (List.mem_filter.mp passed).1
      rw [← earlier] at answered
      exact fst_mem_of_run answered
    exact (List.pairwise_append.mp upto).2.2 a.1 came x List.mem_cons_self
  have bucket := @after_counts κ α _ l k x before (fun _ => []) [] upto fun _ _ => rfl
  rw [earlier, List.nil_append] at bucket
  rw [serve_of_ask ask, bucket] at answer
  have full : limit ≤ ((l.letThrough k past).filter (l.counts x)).length := by
    by_contra room
    rw [if_neg room] at answer
    cases answer
  refine ⟨Nat.le_antisymm ?_ full, older⟩
  -- what counts lies in the window that ends with the input
  have window := @let_through_le κ α _ l k limit before
    (sorted.sublist (List.sublist_append_left before _))
    (fun y hy => limits y (List.mem_append_left _ hy)) (l.now x - l.width + 1)
  rw [earlier] at window
  refine Nat.le_trans (Nat.le_of_eq ?_) window
  congr 1
  refine List.filter_congr fun t mem => ?_
  have late := older t mem
  unfold counts inWindow
  rw [Bool.eq_iff_iff, Bool.and_eq_true, decide_eq_true_eq, decide_eq_true_eq, decide_eq_true_eq]
  omega

end Limiter

end SlidingWindow
