import Mathlib.Data.List.Sort
import Mathlib.Order.Defs.LinearOrder
import Mathlib.Tactic.Common

/-!
# Keyset pagination

A table listed page by page, each page taken up where the last row of the one before it
stands in the order. A server that does not look one row ahead says "there is more" by the
length of the page alone, so the last page may be empty.

`follow` is a reader who asks until a page comes without a cursor. `follow_keyset` is what
such a reader gets from a server that answers with the page of the key: all rows, each
once, in order, and on `n / limit + 1` pages.
-/

namespace Keyset

/-! ## The reader -/

section Reader

variable {ρ χ ε : Type}

/-- The pages of a reader who asks again with every cursor. -/
def follow (fetch : Option χ → Except ε (List ρ × Option χ)) :
    Nat → Option χ → Option (List (List ρ))
  | 0, _ => none
  | fuel + 1, cursor =>
    match fetch cursor with
    | .error _ => none
    | .ok (rows, none) => some [rows]
    | .ok (rows, some next) => (follow fetch fuel (some next)).map (rows :: ·)

end Reader

/-! ## The pages -/

section Pages

variable {ρ κ : Type} [LinearOrder κ] (key : ρ → κ)

/-- The rows come with the largest key first, and no two with the same. -/
def Descending (rows : List ρ) : Prop := rows.Pairwise fun a b => key b < key a

/-- A row that stands behind the one the cursor was made of. -/
def below (after : Option ρ) (r : ρ) : Bool := after.all fun last => key r < key last

def page (rows : List ρ) (limit : Nat) (after : Option ρ) : List ρ :=
  (rows.filter (below key after)).take limit

/-- The row the next cursor is made of: a full page has one, also where nothing follows. -/
def nextAfter (limit : Nat) (rows : List ρ) : Option ρ :=
  if rows.length = limit then rows.getLast? else none

/-- `ORDER BY` the key, the largest first. -/
def sortDown (rows : List ρ) : List ρ := rows.insertionSort fun a b => key b ≤ key a

variable {key}

theorem sortDown_perm (rows : List ρ) : (sortDown key rows).Perm rows :=
  List.perm_insertionSort _ rows

theorem descending_sortDown {rows : List ρ} (distinct : (rows.map key).Nodup) :
    Descending key (sortDown key rows) := by
  have ordered : (sortDown key rows).Pairwise fun a b => key b ≤ key a :=
    have : Std.Total fun a b : ρ => key b ≤ key a := ⟨fun a b => le_total (key b) (key a)⟩
    have : IsTrans ρ fun a b => key b ≤ key a := ⟨fun _ _ _ ab bc => le_trans bc ab⟩
    List.pairwise_insertionSort _ rows
  have apart : ((sortDown key rows).map key).Nodup :=
    ((sortDown_perm rows).map key).nodup_iff.mpr distinct
  refine (ordered.and (List.pairwise_map.mp apart)).imp fun {a b} both => ?_
  exact lt_of_le_of_ne both.1 (Ne.symm both.2)

/-- Sorting what a condition leaves is sorting first and leaving out afterwards. -/
theorem sortDown_filter {rows : List ρ} (distinct : (rows.map key).Nodup) (p : ρ → Bool) :
    sortDown key (rows.filter p) = (sortDown key rows).filter p := by
  have fewer : ((rows.filter p).map key).Nodup :=
    distinct.sublist ((List.filter_sublist (p := p)).map key)
  refine List.Perm.eq_of_pairwise (fun a b _ _ ab ba => absurd ab (lt_asymm ba))
    (descending_sortDown fewer) ((descending_sortDown distinct).filter p) ?_
  exact (sortDown_perm _).trans ((sortDown_perm rows).filter p).symm

/-- What stands behind the last of the rows seen is what has not been seen. -/
theorem filter_below {seen rest : List ρ} (sorted : Descending key (seen ++ rest)) :
    (seen ++ rest).filter (below key seen.getLast?) = rest := by
  obtain rfl | ⟨init, last, rfl⟩ := List.eq_nil_or_concat' seen
  · exact List.filter_eq_self.mpr fun _ _ => rfl
  · obtain ⟨seenSorted, -, across⟩ := List.pairwise_append.mp sorted
    have seenKept : ∀ r ∈ init ++ [last], key last ≤ key r := by
      intro r hr
      rcases List.mem_append.mp hr with hr | hr
      · exact le_of_lt ((List.pairwise_append.mp seenSorted).2.2 r hr last (by simp))
      · rw [List.mem_singleton.mp hr]
    have none_seen : (init ++ [last]).filter (below key (some last)) = [] := by
      refine List.filter_eq_nil_iff.mpr fun r hr => ?_
      simpa [below] using seenKept r hr
    have all_rest : rest.filter (below key (some last)) = rest := by
      refine List.filter_eq_self.mpr fun r hr => ?_
      simpa [below] using across last (by simp) r hr
    rw [List.getLast?_append, List.getLast?_singleton, Option.some_or, List.filter_append,
      none_seen, all_rest, List.nil_append]

variable {χ ε : Type}

/-- A server answers with the page behind the cursor's row, and with the cursor of that
page's last row where the page is full. -/
def Serves (key : ρ → κ) (encode : ρ → χ) (limit : Nat) (rows : List ρ)
    (fetch : Option χ → Except ε (List ρ × Option χ)) : Prop :=
  ∀ after : Option ρ, (∀ r ∈ after, r ∈ rows) →
    fetch (after.map encode) =
      .ok (page key rows limit after, (nextAfter limit (page key rows limit after)).map encode)

/-- The rest of the rows, read from the row before it on. -/
theorem follow_rest {encode : ρ → χ} {limit : Nat}
    {fetch : Option χ → Except ε (List ρ × Option χ)} (pos : 0 < limit) :
    ∀ (n : Nat) {seen rest : List ρ}, rest.length / limit = n →
      Descending key (seen ++ rest) → Serves key encode limit (seen ++ rest) fetch →
      ∃ pages, (∀ fuel, n < fuel → follow fetch fuel (seen.getLast?.map encode) = some pages) ∧
        pages.flatten = rest ∧ pages.length = n + 1 := by
  intro n
  induction n with
  | zero =>
    intro seen rest count sorted serves
    have short : rest.length < limit := (Nat.div_eq_zero_iff_lt pos).mp count
    have answer := serves seen.getLast? fun r hr =>
      List.mem_append_left rest (List.mem_of_getLast? hr)
    rw [page, filter_below sorted, List.take_of_length_le (Nat.le_of_lt short), nextAfter,
      if_neg (Nat.ne_of_lt short)] at answer
    refine ⟨[rest], fun fuel some_fuel => ?_, by simp, rfl⟩
    obtain ⟨fuel, rfl⟩ := Nat.exists_eq_succ_of_ne_zero (Nat.ne_of_gt some_fuel)
    rw [follow, answer]
    rfl
  | succ n ih =>
    intro seen rest count sorted serves
    have enough : limit ≤ rest.length := by
      by_contra short
      rw [Nat.div_eq_of_lt (by omega)] at count
      omega
    have full : (rest.take limit).length = limit := by
      rw [List.length_take]
      omega
    have answer := serves seen.getLast? fun r hr =>
      List.mem_append_left rest (List.mem_of_getLast? hr)
    rw [page, filter_below sorted, nextAfter, if_pos full] at answer
    -- The page joins what has been seen, and its last row is where the rest begins.
    have cut : seen ++ rest = (seen ++ rest.take limit) ++ rest.drop limit := by
      rw [List.append_assoc, List.take_append_drop]
    have left : (rest.drop limit).length / limit = n := by
      have one := Nat.div_eq_sub_div pos enough
      rw [List.length_drop]
      omega
    rw [cut] at sorted serves
    obtain ⟨pages, followed, whole, number⟩ := ih left sorted serves
    have some_rows : rest.take limit ≠ [] := List.ne_nil_of_length_pos (by omega)
    have last : (seen ++ rest.take limit).getLast? = (rest.take limit).getLast? :=
      List.getLast?_append_of_ne_nil _ some_rows
    obtain ⟨row, stands⟩ : ∃ row, (rest.take limit).getLast? = some row :=
      ⟨_, List.getLast?_eq_some_getLast some_rows⟩
    rw [stands] at answer
    rw [last, stands] at followed
    refine ⟨rest.take limit :: pages, fun fuel more => ?_, ?_, ?_⟩
    · obtain ⟨fuel, rfl⟩ := Nat.exists_eq_succ_of_ne_zero (show fuel ≠ 0 by omega)
      have next := followed fuel (by omega)
      rw [Option.map_some] at next
      rw [follow, answer]
      show (follow fetch fuel (some (encode row))).map (rest.take limit :: ·) = _
      rw [next]
      rfl
    · rw [List.flatten_cons, whole, List.take_append_drop]
    · rw [List.length_cons, number]

/-- A reader who follows the cursors is through after `n / limit + 1` pages and has seen
every row once, in the order of the keys. -/
theorem follow_keyset {encode : ρ → χ} {limit : Nat} {rows : List ρ}
    {fetch : Option χ → Except ε (List ρ × Option χ)} (pos : 0 < limit)
    (sorted : Descending key rows) (serves : Serves key encode limit rows fetch) :
    ∃ pages, (∀ fuel, rows.length / limit < fuel → follow fetch fuel none = some pages) ∧
      pages.flatten = rows ∧ pages.length = rows.length / limit + 1 :=
  @follow_rest _ _ _ key _ _ encode limit fetch pos _ [] rows rfl sorted serves

end Pages

end Keyset
