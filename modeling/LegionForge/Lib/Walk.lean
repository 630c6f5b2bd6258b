import Mathlib.Algebra.Order.BigOperators.Group.List
import Mathlib.Algebra.Order.Ring.Nat
import Mathlib.Data.List.Basic
import Mathlib.Tactic.Common

/-!
# Walking a tree level by level

The trees are given by the children of a node. A walk takes the first node off its queue and
puts that node's children behind the others; with one unit of fuel for every node it ends,
and has come by exactly the nodes of the tree (`mem_walk_iff`).
-/

namespace Tree

variable {α : Type} (children : α → List α)

/-- The node itself, or one further down. -/
inductive Below : α → α → Prop
  | refl (n : α) : Below n n
  | child {m c n : α} (mem : c ∈ children n) (below : Below m c) : Below m n

/-- The nodes in the order in which they leave the queue. -/
def walkFrom : Nat → List α → List α
  | 0, _ | _, [] => []
  | fuel + 1, n :: queue => n :: walkFrom fuel (queue ++ children n)

/-- A weight that counts a node and everything further down. -/
def Weighs (weight : α → Nat) : Prop := ∀ n, weight n = 1 + ((children n).map weight).sum

variable {children}

theorem Below.trans {m c n : α} (first : Below children m c) (second : Below children c n) :
    Below children m n := by
  induction second with
  | refl => exact first
  | child mem _ ih => exact .child mem ih

theorem of_mem_walkFrom {fuel : Nat} : ∀ {queue : List α} {m : α},
    m ∈ walkFrom children fuel queue → ∃ n ∈ queue, Below children m n := by
  induction fuel with
  | zero =>
    intro queue m mem
    cases mem
  | succ fuel ih =>
    intro queue m mem
    cases queue with
    | nil => cases mem
    | cons n queue =>
      rcases List.mem_cons.mp mem with rfl | later
      · exact ⟨m, List.mem_cons_self, .refl m⟩
      · obtain ⟨c, at_queue, below⟩ := ih later
        rcases List.mem_append.mp at_queue with old | new
        · exact ⟨c, List.mem_cons_of_mem n old, below⟩
        · exact ⟨n, List.mem_cons_self, .child new below⟩

theorem mem_walkFrom {weight : α → Nat} (weighs : Weighs children weight) {fuel : Nat} :
    ∀ {queue : List α} {m n : α}, (queue.map weight).sum ≤ fuel → n ∈ queue →
      Below children m n → m ∈ walkFrom children fuel queue := by
  induction fuel with
  | zero =>
    intro queue m n enough mem _
    have heavy := weighs n
    have part : weight n ≤ (queue.map weight).sum :=
      List.single_le_sum (fun _ _ => Nat.zero_le _) _ (List.mem_map_of_mem mem)
    omega
  | succ fuel ih =>
    intro queue m n enough mem below
    cases queue with
    | nil => cases mem
    | cons first queue =>
      have enough' : ((queue ++ children first).map weight).sum ≤ fuel := by
        rw [List.map_cons, List.sum_cons, weighs first] at enough
        rw [List.map_append, List.sum_append]
        omega
      rw [walkFrom]
      rcases List.mem_cons.mp mem with rfl | later
      · cases below with
        | refl => exact List.mem_cons_self
        | child at_children below =>
          exact List.mem_cons_of_mem _
            (ih enough' (List.mem_append_right queue at_children) below)
      · exact List.mem_cons_of_mem _ (ih enough' (List.mem_append_left _ later) below)

/-- The walk comes by every node of the tree, and by no other. -/
theorem mem_walk_iff {weight : α → Nat} (weighs : Weighs children weight) {m n : α} :
    m ∈ walkFrom children (weight n) [n] ↔ Below children m n := by
  constructor
  · intro mem
    obtain ⟨c, at_queue, below⟩ := of_mem_walkFrom mem
    rwa [List.mem_singleton.mp at_queue] at below
  · exact mem_walkFrom weighs (by simp) List.mem_cons_self

end Tree
