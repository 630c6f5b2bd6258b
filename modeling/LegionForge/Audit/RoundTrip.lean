import LegionForge.Audit.Value

/-!
# Which payloads survive JSONB

`Stable` says it of a payload member by member: no float that JSONB respells,
and in every dict, taken in the order Python sorts its keys, member names that
already increase as strings. `canon_readBack_iff` is the exactness of that
condition. Its dict case is the whole difficulty: the list written at the
append is sorted by the Python keys, the list written at the verification is
what is left after JSONB dropped repeated names, sorted by name, and the two
are compared as lists.
-/

namespace LegionForge.Audit

open JsonText (Json Token tokenChar)

/-- JSONB gives the float back as `json.dumps` wrote it. -/
def PyFloat.Stable (f : PyFloat) : Prop :=
  if f.digits = [] then f.neg = false else f.decpt ≤ 16

section

variable (floatVal : PyFloat → ℚ)

/-- The member names of a dict, in the order `sort_keys` puts them. -/
def sortedNames {β : Type} (items : List (PyKey × β)) : List String :=
  (sortItems floatVal items).map fun item => item.1.text

mutual

def PyVal.Stable : PyVal → Prop
  | .float f => f.Stable
  | .list xs => StableList xs
  | .dict items =>
      (sortedNames floatVal items).Pairwise (· < ·) ∧ StableItems items
  | _ => True

def StableList : List PyVal → Prop
  | [] => True
  | x :: xs => x.Stable ∧ StableList xs

def StableItems : List (PyKey × PyVal) → Prop
  | [] => True
  | (_, v) :: items => v.Stable ∧ StableItems items

end

end

/-! ## Numbers -/

theorem exp_mem_repr {f : PyFloat} (hd : f.digits ≠ []) (h : 16 < f.decpt) :
    'e' ∈ f.repr := by
  have hexp : f.usesExponent = true := by
    rw [PyFloat.usesExponent, decide_eq_true h, Bool.or_true]
  rw [PyFloat.repr, if_neg hd, if_pos hexp]
  simp

theorem exp_not_mem_intText (n : Int) : 'e' ∉ intText n := by
  intro h
  rcases List.mem_append.mp h with hs | hd
  · revert hs
    cases decide (n < 0) <;> decide
  · have := Nat.isDigit_of_mem_toDigits (by omega) (by omega) hd
    exact absurd this (by decide)

theorem token_readBack_iff (floatVal : PyFloat → ℚ) (f : PyFloat) :
    f.readBack.canon floatVal = .num f.token ↔ f.Stable := by
  unfold PyFloat.readBack PyFloat.Stable
  split_ifs with hz hbig
  · rw [PyVal.canon, Json.num.injEq, PyFloat.token, PyFloat.token,
      Token.mk.injEq, PyFloat.repr, PyFloat.repr, if_pos hz]
    cases f.neg <;> decide
  · rw [PyVal.canon, Json.num.injEq, PyFloat.token, intToken, Token.mk.injEq]
    refine iff_of_false (fun h => ?_) (by omega)
    exact exp_not_mem_intText f.toInt (h ▸ exp_mem_repr hz hbig)
  · exact iff_of_true rfl (by omega)

/-! ## Members -/

section

variable (floatVal : PyFloat → ℚ)

theorem canonItems_eq_map (items : List (PyKey × PyVal)) :
    canonItems floatVal items =
      items.map fun (k, v) => (k, v.canon floatVal) := by
  induction items with
  | nil => rfl
  | cons item items ih => rw [canonItems, ih, List.map_cons]

theorem readBackItems_eq_map (items : List (PyKey × PyVal)) :
    readBackItems floatVal items =
      items.map fun (k, v) => (k, v.readBack floatVal) := by
  induction items with
  | nil => rfl
  | cons item items ih => rw [readBackItems, ih, List.map_cons]

/-- The sort sees the keys only. -/
theorem sortItems_map {β γ : Type} (g : β → γ) (items : List (PyKey × β)) :
    sortItems floatVal (items.map fun (k, v) => (k, g v)) =
      (sortItems floatVal items).map fun (k, v) => (k, g v) := by
  unfold sortItems
  exact (List.map_insertionSort
    (fun a b : PyKey × β => a.1.le floatVal b.1)
    (fun a b : PyKey × γ => a.1.le floatVal b.1) _ _
    fun _ _ _ _ => Iff.rfl).symm

/-- What is kept does not depend on the values, and renaming the keys one to
one keeps the same members. -/
theorem lastOfKey_map {κ ν β γ : Type} [DecidableEq κ] [DecidableEq ν]
    {f : κ → ν} (hf : Function.Injective f) (g : β → γ) (items : List (κ × β)) :
    lastOfKey (items.map fun (k, v) => (f k, g v)) =
      (lastOfKey items).map fun (k, v) => (f k, g v) := by
  induction items with
  | nil => rfl
  | cons item items ih =>
      have hmem : f item.1 ∈
          (items.map fun (k, v) => (f k, g v)).map Prod.fst ↔
          item.1 ∈ items.map Prod.fst := by
        rw [List.map_map, ← List.mem_map_of_injective hf, List.map_map]
        rfl
      rw [List.map_cons, lastOfKey, lastOfKey, ih]
      by_cases h : item.1 ∈ items.map Prod.fst
      · rw [if_pos h, if_pos (hmem.mpr h)]
      · rw [if_neg h, if_neg (mt hmem.mp h), List.map_cons]

theorem lastOfKey_of_nodup {κ β : Type} [DecidableEq κ] {items : List (κ × β)}
    (h : (items.map Prod.fst).Nodup) : lastOfKey items = items := by
  induction items with
  | nil => rfl
  | cons item items ih =>
      obtain ⟨hk, hrest⟩ := List.nodup_cons.mp h
      rw [lastOfKey, if_neg hk, ih hrest]

theorem mem_keys_lastOfKey {κ β : Type} [DecidableEq κ] {k : κ}
    (items : List (κ × β)) :
    k ∈ (lastOfKey items).map Prod.fst ↔ k ∈ items.map Prod.fst := by
  induction items with
  | nil => rfl
  | cons item items ih =>
      rw [lastOfKey]
      split_ifs with h
      · rw [ih, List.map_cons, List.mem_cons]
        exact ⟨Or.inr, fun hk => hk.elim (fun he => he ▸ h) id⟩
      · rw [List.map_cons, List.map_cons, List.mem_cons, List.mem_cons, ih]

theorem nodup_keys_lastOfKey {κ β : Type} [DecidableEq κ] (items : List (κ × β)) :
    ((lastOfKey items).map Prod.fst).Nodup := by
  induction items with
  | nil => exact List.nodup_nil
  | cons item items ih =>
      rw [lastOfKey]
      split_ifs with h
      · exact ih
      · exact List.nodup_cons.mpr
          ⟨fun hk => h ((mem_keys_lastOfKey items).mp hk), ih⟩

/-! ## Dicts -/

/-- What `json.dumps` makes of members that come back from JSONB: one of each
name, sorted by name. -/
def resort {β : Type} (ms : List (String × β)) : List (String × β) :=
  (lastOfKey ms).insertionSort fun a b => a.1 ≤ b.1

theorem resort_of_increasing {β : Type} {ms : List (String × β)}
    (h : (ms.map Prod.fst).Pairwise (· < ·)) : resort ms = ms := by
  rw [resort, lastOfKey_of_nodup (h.imp ne_of_lt)]
  exact ((List.pairwise_map.mp h).imp le_of_lt).insertionSort_eq

theorem resort_increasing {β : Type} (ms : List (String × β)) :
    ((resort ms).map Prod.fst).Pairwise (· < ·) := by
  have hsorted : (resort ms).Pairwise fun a b => a.1 ≤ b.1 :=
    haveI : Std.Total fun a b : String × β => a.1 ≤ b.1 :=
      ⟨fun a b => le_total a.1 b.1⟩
    haveI : IsTrans (String × β) fun a b => a.1 ≤ b.1 :=
      ⟨fun _ _ _ => le_trans⟩
    List.pairwise_insertionSort _ _
  have hnodup : ((resort ms).map Prod.fst).Nodup :=
    ((List.perm_insertionSort _ _).map Prod.fst).nodup_iff.mpr
      (nodup_keys_lastOfKey ms)
  refine List.pairwise_map.mpr (hsorted.imp₂ (fun a b hle hne => ?_)
    (List.pairwise_map.mp hnodup))
  exact lt_of_le_of_ne hle hne

theorem canon_dict (items : List (PyKey × PyVal)) :
    (PyVal.dict items).canon floatVal =
      .obj ((sortItems floatVal items).map
        fun (k, v) => (k.text, v.canon floatVal)) := by
  rw [PyVal.canon, canonItems_eq_map, sortItems_map, List.map_map]
  rfl

/-- A dict whose keys are strings is sorted by its names. -/
theorem canon_dict_str (ms : List (String × PyVal)) :
    (PyVal.dict (ms.map fun (s, v) => (.str s, v))).canon floatVal =
      .obj ((ms.insertionSort fun a b => a.1 ≤ b.1).map
        fun (s, v) => (s, v.canon floatVal)) := by
  rw [canon_dict, sortItems, ← List.map_insertionSort
    (fun a b : String × PyVal => a.1 ≤ b.1), List.map_map]
  · rfl
  · intro a _ b _
    exact decide_eq_true_iff.symm

theorem canon_readBack_dict (items : List (PyKey × PyVal)) :
    ((PyVal.dict items).readBack floatVal).canon floatVal =
      .obj (resort ((sortItems floatVal items).map
        fun (k, v) => (k.text, (v.readBack floatVal).canon floatVal))) := by
  have hback : (sortItems floatVal (readBackItems floatVal items)).map
        (fun (k, v) => (PyKey.str k.text, v)) =
      ((sortItems floatVal items).map
        fun (k, v) => (k.text, v.readBack floatVal)).map
          fun (s, v) => (PyKey.str s, id v) := by
    rw [readBackItems_eq_map, sortItems_map, List.map_map, List.map_map]
    rfl
  have hstr : Function.Injective PyKey.str := fun _ _ => PyKey.str.inj
  rw [PyVal.readBack, hback, lastOfKey_map hstr]
  refine (canon_dict_str floatVal _).trans ?_
  rw [List.map_insertionSort _ (fun a b : String × Json => a.1 ≤ b.1)]
  · have hkeep := lastOfKey_map Function.injective_id (PyVal.canon floatVal)
      ((sortItems floatVal items).map
        fun (k, v) => (k.text, v.readBack floatVal))
    rw [List.map_map] at hkeep
    exact congrArg (fun ms : List (String × Json) =>
      Json.obj (ms.insertionSort fun a b => a.1 ≤ b.1)) hkeep.symm
  · exact fun _ _ _ _ => Iff.rfl

/-! ## The round trip -/

mutual

theorem canon_readBack_iff : ∀ v : PyVal,
    (v.readBack floatVal).canon floatVal = v.canon floatVal ↔
      v.Stable floatVal
  | .none => iff_of_true rfl trivial
  | .bool _ => iff_of_true rfl trivial
  | .int _ => iff_of_true rfl trivial
  | .float f => token_readBack_iff floatVal f
  | .str _ => iff_of_true rfl trivial
  | .list xs => by
      rw [PyVal.readBack, PyVal.canon, PyVal.canon, PyVal.Stable,
        Json.arr.injEq, canonList_readBack_iff xs]
  | .dict items => by
      rw [canon_readBack_dict, canon_dict, PyVal.Stable, Json.obj.injEq,
        ← canonItems_readBack_iff items]
      have hnames : ((sortItems floatVal items).map
            fun (k, v) => (k.text, (v.readBack floatVal).canon floatVal)).map
              Prod.fst = sortedNames floatVal items := by
        rw [List.map_map]
        rfl
      have hnames' : ((sortItems floatVal items).map
            fun (k, v) => (k.text, v.canon floatVal)).map Prod.fst =
          sortedNames floatVal items := by
        rw [List.map_map]
        rfl
      have hperm : ∀ item, item ∈ sortItems floatVal items ↔ item ∈ items :=
        fun _ => (List.perm_insertionSort _ items).mem_iff
      refine ⟨?_, ?_⟩
      · intro h
        have hinc := hnames' ▸ h ▸ resort_increasing _
        rw [resort_of_increasing (hnames ▸ hinc), List.map_inj_left] at h
        exact ⟨hinc, fun item hi =>
          (Prod.mk.inj (h item ((hperm item).mpr hi))).2⟩
      · intro ⟨hinc, hvals⟩
        rw [resort_of_increasing (hnames ▸ hinc), List.map_inj_left]
        intro item hi
        exact congrArg (Prod.mk item.1.text) (hvals item ((hperm item).mp hi))

theorem canonList_readBack_iff : ∀ xs : List PyVal,
    canonList floatVal (readBackList floatVal xs) = canonList floatVal xs ↔
      StableList floatVal xs
  | [] => iff_of_true rfl trivial
  | x :: xs => by
      rw [readBackList, canonList, canonList, StableList, List.cons.injEq,
        canon_readBack_iff x, canonList_readBack_iff xs]

theorem canonItems_readBack_iff : ∀ items : List (PyKey × PyVal),
    (∀ item ∈ items,
        (item.2.readBack floatVal).canon floatVal = item.2.canon floatVal) ↔
      StableItems floatVal items
  | [] => iff_of_true (fun _ h => absurd h List.not_mem_nil) trivial
  | (k, v) :: items => by
      rw [List.forall_mem_cons, StableItems, canon_readBack_iff v,
        canonItems_readBack_iff items]

end

/-! ## Writing what was read -/

theorem dumpableItems_iff (items : List (PyKey × PyVal)) :
    dumpableItems items = true ↔ ∀ item ∈ items, item.2.dumpable = true := by
  induction items with
  | nil => exact iff_of_true rfl fun _ h => absurd h List.not_mem_nil
  | cons item items ih =>
      rw [dumpableItems, Bool.and_eq_true, ih, List.forall_mem_cons]

theorem mem_of_mem_lastOfKey {κ β : Type} [DecidableEq κ] {item : κ × β}
    {items : List (κ × β)} (h : item ∈ lastOfKey items) : item ∈ items := by
  induction items with
  | nil => exact h
  | cons head items ih =>
      rw [lastOfKey] at h
      split_ifs at h
      · exact List.mem_cons_of_mem _ (ih h)
      · rcases List.mem_cons.mp h with rfl | h
        · exact List.mem_cons_self
        · exact List.mem_cons_of_mem _ (ih h)

theorem readBack_float_dumpable (f : PyFloat) : f.readBack.dumpable = true := by
  unfold PyFloat.readBack
  split_ifs <;> rfl

mutual

/-- The keys that come back are strings, so the second `json.dumps` never
raises. -/
theorem readBack_dumpable : ∀ v : PyVal, (v.readBack floatVal).dumpable = true
  | .none => rfl
  | .bool _ => rfl
  | .int _ => rfl
  | .float f => readBack_float_dumpable f
  | .str _ => rfl
  | .list xs => readBackList_dumpable xs
  | .dict items => by
      rw [PyVal.readBack, PyVal.dumpable, Bool.and_eq_true]
      refine ⟨?_, ?_⟩
      · rw [sortable, Bool.or_eq_true, Bool.or_eq_true]
        refine .inl (.inr (List.all_eq_true.mpr fun item hi => ?_))
        obtain ⟨_, -, rfl⟩ := List.mem_map.mp (mem_of_mem_lastOfKey hi)
        rfl
      · refine (dumpableItems_iff _).mpr fun item hi => ?_
        obtain ⟨back, hb, rfl⟩ := List.mem_map.mp (mem_of_mem_lastOfKey hi)
        have hmem := (List.perm_insertionSort _ _).mem_iff.mp hb
        rw [readBackItems_eq_map] at hmem
        obtain ⟨orig, ho, rfl⟩ := List.mem_map.mp hmem
        exact readBackItems_dumpable items orig ho

theorem readBackList_dumpable : ∀ xs : List PyVal,
    dumpableList (readBackList floatVal xs) = true
  | [] => rfl
  | x :: xs => by
      rw [readBackList, dumpableList, readBack_dumpable x,
        readBackList_dumpable xs]
      rfl

theorem readBackItems_dumpable : ∀ items : List (PyKey × PyVal),
    ∀ item ∈ items, (item.2.readBack floatVal).dumpable = true
  | [], _, h => absurd h List.not_mem_nil
  | (_, v) :: items, item, h => by
      rcases List.mem_cons.mp h with rfl | h
      · exact readBack_dumpable v
      · exact readBackItems_dumpable items item h

end

end

end LegionForge.Audit
