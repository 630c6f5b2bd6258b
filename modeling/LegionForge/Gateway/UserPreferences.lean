import LegionForge.Gateway.TaskExport
import LegionForge.Lib.Grants
import Mathlib.Data.List.Dedup

/-!
# The preferences of a user

A user's preferences are one JSON object. An update is checked against a schema and merged into
it, a key may be removed and the whole may be cleared; an empty list of keys clears it as well.
The agents put what is stored in front of the model as a text.

Every key of every user is on its own: `preference_iff` says what is stored under it without
the object. Nothing but the schema's keys and values gets into the text for the model
(`context_iff`).
-/

namespace LegionForge.Gateway

/-! ## The schema -/

/-- A JSON value, as far as `_validate_prefs` tells them apart -/
inductive PreferenceInput where
  | bool (b : Bool)
  | int (n : Int)
  | str (s : String)
  /-- Null, a float, an array or an object -/
  | other

inductive PreferenceValue where
  | bool (b : Bool)
  | int (n : Int)
  | str (s : String)
  deriving DecidableEq

inductive PreferenceType where
  /-- One of the texts, which are sorted -/
  | choice (choices : List String)
  | range (least greatest : Int)
  | flag

/-- `_PREF_SCHEMA` -/
def prefSchema : List (String × PreferenceType) :=
  [("default_agent_type", .choice ["base_agent", "orchestrator", "researcher"]),
    ("default_max_steps", .range 1 100), ("default_tracing_enabled", .flag),
    ("default_priority", .range 1 10), ("ui_theme", .choice ["dark", "light", "system"]),
    ("notification_on_complete", .flag), ("notification_on_fail", .flag)]

def PreferenceType.accepts : PreferenceType → PreferenceValue → Bool
  | .choice choices, .str s => choices.contains s
  | .range least greatest, .int n => least ≤ n && n ≤ greatest
  | .flag, .bool _ => true
  | _, _ => false

/-- The value of a key, or why it is none -/
def PreferenceType.check (key : String) :
    PreferenceType → PreferenceInput → Except String PreferenceValue
  | .flag, .bool b => .ok (.bool b)
  | .flag, _ => .error s!"'{key}' must be a boolean"
  | .range least greatest, .int n =>
    if least ≤ n && n ≤ greatest then .ok (.int n)
    else .error s!"'{key}' must be between {least} and {greatest}"
  | .range _ _, _ => .error s!"'{key}' must be an integer"
  | .choice choices, .str s =>
    if choices.contains s then .ok (.str s)
    else .error (s!"'{key}' must be one of " ++ listText choices)
  | .choice _, _ => .error s!"'{key}' must be a string"

/-- The schema has the key, and the value is one for it. -/
def allowedPreference (p : String × PreferenceValue) : Bool :=
  (prefSchema.lookup p.1).any (·.accepts p.2)

/-- An object whose keys and values the schema has -/
structure Preferences extends Table (Prod.fst : String × PreferenceValue → String) where
  allowed : ∀ p ∈ rows, allowedPreference p = true

namespace Preferences

def value (prefs : Preferences) (key : String) : Option PreferenceValue :=
  (prefs.toTable.get key).map (·.2)

def empty : Preferences := { Table.empty with allowed := fun _ h => absurd h List.not_mem_nil }

/-- `prefs || new` -/
def merge (prefs new : Preferences) : Preferences where
  rows := new.rows ++ (prefs.toTable.discard fun p => (new.toTable.get p.1).isSome).rows
  keys := by
    rw [List.map_append]
    refine List.nodup_append.mpr ⟨new.keys, (prefs.toTable.discard _).keys, ?_⟩
    rintro key here _ there rfl
    obtain ⟨p, hp, rfl⟩ := List.mem_map.mp here
    obtain ⟨q, hq, same⟩ := List.mem_map.mp there
    have absent : (!(new.toTable.get q.1).isSome) = true := (List.mem_filter.mp hq).2
    rw [same, Table.get_of_mem hp] at absent
    cases absent
  allowed p hp := by
    rcases List.mem_append.mp hp with here | there
    · exact new.allowed p here
    · exact prefs.allowed p (List.mem_filter.mp there).1

/-- `prefs - keys` -/
def remove (prefs : Preferences) (keys : List String) : Preferences where
  toTable := prefs.toTable.discard fun p => keys.contains p.1
  allowed p hp := prefs.allowed p (List.mem_filter.mp hp).1

theorem value_eq_some_iff {prefs : Preferences} {key : String} {v : PreferenceValue} :
    prefs.value key = some v ↔ (key, v) ∈ prefs.rows := by
  rw [value, Option.map_eq_some_iff]
  constructor
  · rintro ⟨p, found, rfl⟩
    obtain ⟨mem, rfl⟩ := Table.get_mem found
    exact mem
  · intro mem
    exact ⟨(key, v), Table.get_of_mem mem, rfl⟩

theorem value_merge (prefs new : Preferences) (key : String) :
    (prefs.merge new).value key = (new.value key).or (prefs.value key) := by
  refine Option.ext fun v => ?_
  have rows : (key, v) ∈ (prefs.merge new).rows ↔ (key, v) ∈ new.rows ∨
      ((key, v) ∈ prefs.rows ∧ new.toTable.get key = none) := by
    show (key, v) ∈ new.rows ++ prefs.rows.filter _ ↔ _
    rw [List.mem_append, List.mem_filter, Bool.not_eq_true', Option.isSome_eq_false_iff,
      Option.isNone_iff_eq_none]
  have absent : new.toTable.get key = none ↔ new.value key = none := by
    rw [value, Option.map_eq_none_iff]
  rw [value_eq_some_iff, rows, ← value_eq_some_iff, ← value_eq_some_iff, absent]
  cases new.value key <;> simp

theorem value_remove (prefs : Preferences) (keys : List String) (key : String) :
    (prefs.remove keys).value key = if keys.contains key then none else prefs.value key := by
  refine Option.ext fun v => ?_
  have rows : (key, v) ∈ (prefs.remove keys).rows ↔
      (key, v) ∈ prefs.rows ∧ (!keys.contains key) = true := List.mem_filter
  rw [value_eq_some_iff, rows, ← value_eq_some_iff]
  cases keys.contains key <;> simp

end Preferences

/-! ## `_validate_prefs` -/

/-- An object of a request -/
structure PreferenceObject where
  members : List (String × PreferenceInput)
  keys : (members.map Prod.fst).Nodup

/-- `sorted` -/
def sortedTexts (texts : List String) : List String := texts.mergeSort fun a b => decide (a ≤ b)

def schemaKeys : List String := prefSchema.map (·.1)

structure PreferenceEnv where
  /-- `repr` of a text -/
  repr : String → String

/-- A sorted list of texts as `repr` writes it -/
def PreferenceEnv.reprList (env : PreferenceEnv) (texts : List String) : String :=
  "[" ++ ", ".intercalate ((sortedTexts texts).map env.repr) ++ "]"

/-- The checks of the loop, in the order of the object -/
def checkMembers : List (String × PreferenceInput) →
    Except String (List (String × PreferenceValue))
  | [] => .ok []
  | (key, input) :: rest =>
    match prefSchema.lookup key with
    -- a `KeyError`; the keys have been looked at before
    | none => .error s!"'{key}'"
    | some type =>
      match type.check key input with
      | .error e => .error e
      | .ok v => (checkMembers rest).map ((key, v) :: ·)

theorem check_accepts {type : PreferenceType} {key : String} {input : PreferenceInput}
    {v : PreferenceValue} (h : type.check key input = .ok v) : type.accepts v = true := by
  cases type with
  | flag =>
    cases input <;> cases h
    rfl
  | range least greatest =>
    cases input with
    | int n =>
      simp only [PreferenceType.check] at h
      split at h
      · next inside =>
        cases h
        exact inside
      · cases h
    | bool _ | str _ | other => cases h
  | choice choices =>
    cases input with
    | str s =>
      simp only [PreferenceType.check] at h
      split at h
      · next one =>
        cases h
        exact one
      · cases h
    | bool _ | int _ | other => cases h

/-- What the loop lets through has keys of the object, each once, and allowed values. -/
theorem checkMembers_ok {members : List (String × PreferenceInput)}
    {checked : List (String × PreferenceValue)} (h : checkMembers members = .ok checked) :
    (checked.map Prod.fst).Sublist (members.map Prod.fst) ∧
      ∀ p ∈ checked, allowedPreference p = true := by
  induction members generalizing checked with
  | nil =>
    cases h
    exact ⟨.slnil, fun p hp => absurd hp List.not_mem_nil⟩
  | cons m rest ih =>
    obtain ⟨key, input⟩ := m
    rw [checkMembers] at h
    cases type : prefSchema.lookup key with
    | none =>
      rw [type] at h
      cases h
    | some t =>
      rw [type] at h
      cases value : t.check key input with
      | error e =>
        simp only [value] at h
        cases h
      | ok v =>
        simp only [value] at h
        cases later : checkMembers rest with
        | error e =>
          rw [later] at h
          cases h
        | ok tail =>
          rw [later] at h
          cases h
          obtain ⟨keys, allowed⟩ := ih later
          refine ⟨keys.cons_cons key, fun p hp => ?_⟩
          rcases List.mem_cons.mp hp with rfl | hp
          · simp [allowedPreference, type, check_accepts value]
          · exact allowed p hp

/-- What was let through, as an object -/
def checkedPreferences (object : PreferenceObject) : Except String Preferences :=
  match checked : checkMembers object.members with
  | .error e => .error e
  | .ok rows => .ok {
      rows
      keys := object.keys.sublist (checkMembers_ok checked).1
      allowed := (checkMembers_ok checked).2 }

/-- `set(keys) - set(_PREF_SCHEMA)` -/
def unknownKeys (keys : List String) : List String :=
  (keys.filter fun k => !schemaKeys.contains k).dedup

def validatePrefs (env : PreferenceEnv) (object : PreferenceObject) :
    Except String Preferences :=
  match unknownKeys (object.members.map (·.1)) with
  | [] => checkedPreferences object
  | unknown => .error ("Unknown preference key(s): " ++ env.reprList unknown ++ ". Allowed: " ++
      env.reprList schemaKeys)

/-! ## The table -/

/-- A row of `user_preferences` -/
structure PreferenceRow where
  userId : String
  prefs : Preferences
  updatedAt : Nat

abbrev PreferenceTable := Table PreferenceRow.userId

/-- `ON CONFLICT (user_id) DO UPDATE` -/
def PreferenceRow.update (new : Preferences) (now : Nat) (r : PreferenceRow) : PreferenceRow :=
  { r with prefs := r.prefs.merge new, updatedAt := now }

def PreferenceRow.drop (keys : List String) (now : Nat) (r : PreferenceRow) : PreferenceRow :=
  { r with prefs := r.prefs.remove keys, updatedAt := now }

theorem PreferenceRow.userId_update (new : Preferences) (now : Nat) (r : PreferenceRow) :
    (r.update new now).userId = r.userId := rfl

theorem PreferenceRow.userId_drop (keys : List String) (now : Nat) (r : PreferenceRow) :
    (r.drop keys now).userId = r.userId := rfl

inductive PreferenceAction where
  | getUserPreferences (userId : String)
  | updateUserPreferences (userId : String) (prefs : PreferenceObject) (now : Nat)
  | deleteUserPreferences (userId : String) (keys : Option (List String)) (now : Nat)
  /-- `enabled`: both settings of the memory -/
  | userContextBootstrap (userId : Option String) (enabled : Bool)

inductive PreferenceLabel where
  /-- `{}` -/
  | nothing
  | stored (prefs : Preferences) (updatedAt : Option Nat)
  | refused (detail : String)
  | context (text : String)

def PreferenceValue.text : PreferenceValue → String
  | .bool b => if b then "True" else "False"
  | .int n => toString n
  | .str s => s

/-- The members by their keys -/
def Preferences.sorted (prefs : Preferences) : List (String × PreferenceValue) :=
  prefs.rows.mergeSort fun a b => decide (a.1 ≤ b.1)

theorem Preferences.pairwise_sorted (prefs : Preferences) :
    prefs.sorted.Pairwise fun a b => a.1 < b.1 := by
  have ordered : prefs.sorted.Pairwise fun a b => decide (a.1 ≤ b.1) = true := by
    refine List.pairwise_mergeSort (fun a b c hab hbc => ?_) (fun a b => ?_) prefs.rows
    · exact decide_eq_true (le_trans (of_decide_eq_true hab) (of_decide_eq_true hbc))
    · simpa using le_total a.1 b.1
  have perm : prefs.sorted.Perm prefs.rows := List.mergeSort_perm _ _
  have keys : (prefs.sorted.map Prod.fst).Nodup := (perm.map Prod.fst).nodup_iff.mpr prefs.keys
  have distinct : prefs.sorted.Pairwise fun a b => a.1 ≠ b.1 := List.pairwise_map.mp keys
  exact ordered.imp₂ (fun a b le ne => lt_of_le_of_ne (of_decide_eq_true le) ne) distinct

/-- The text for the model -/
def contextText (members : List (String × PreferenceValue)) : String :=
  if members = [] then ""
  else "[User context — injected from stored preferences]\n" ++
    "\n".intercalate (members.map fun p => s!"{p.1}: {p.2.text}")

section
variable (env : PreferenceEnv) (s : PreferenceTable)

/-- What is stored under a key of a user -/
def storedPreference (userId key : String) : Option PreferenceValue :=
  (s.get userId).bind (·.prefs.value key)

def updateUserPreferences (userId : String) (object : PreferenceObject) (now : Nat) :
    PreferenceTable × PreferenceLabel :=
  match validatePrefs env object with
  | .error detail => (s, .refused detail)
  | .ok new =>
    let s' := s.upsert ⟨userId, new, now⟩ (.update new now) (PreferenceRow.userId_update new now)
    (s', .stored (((s'.get userId).map (·.prefs)).getD .empty) (some now))

def deleteUserPreferences (userId : String) (keys : Option (List String)) (now : Nat) :
    PreferenceTable × PreferenceLabel :=
  let keys := keys.getD []
  if keys = [] then (s.discard (·.userId = userId), .stored .empty none)
  else if unknownKeys keys = [] then
    let s' := s.modify userId (.drop keys now) (PreferenceRow.userId_drop keys now)
    (s', .stored (((s'.get userId).map (·.prefs)).getD .empty) ((s'.get userId).map (·.updatedAt)))
  else (s, .refused ("Unknown preference key(s): " ++ env.reprList (unknownKeys keys)))

def getUserPreferences (userId : String) : PreferenceLabel :=
  match s.get userId with
  | none => .nothing
  | some row => .stored row.prefs (some row.updatedAt)

def userContextBootstrap (userId : Option String) (enabled : Bool) : String :=
  match userId.filter (· ≠ "") with
  | none => ""
  | some userId =>
    if enabled then contextText (((s.get userId).map (·.prefs.sorted)).getD []) else ""

def preferenceStep : PreferenceAction → PreferenceTable × PreferenceLabel
  | .getUserPreferences userId => (s, getUserPreferences s userId)
  | .updateUserPreferences userId object now => updateUserPreferences env s userId object now
  | .deleteUserPreferences userId keys now => deleteUserPreferences env s userId keys now
  | .userContextBootstrap userId enabled => (s, .context (userContextBootstrap s userId enabled))

end

def preferenceStore (env : PreferenceEnv) :
    Machine PreferenceTable PreferenceAction PreferenceLabel where
  step s a := some (preferenceStep env s a)

abbrev PreferenceStep := Machine.Entry PreferenceTable PreferenceAction PreferenceLabel

/-! ## A key of a user -/

/-- What the action writes under the key -/
def PreferenceAction.sets (env : PreferenceEnv) (userId key : String) :
    PreferenceAction → Option PreferenceValue
  | .updateUserPreferences user object _ =>
    if user = userId then (validatePrefs env object).toOption.bind (·.value key) else none
  | _ => none

/-- It writes there, or deletes what is there. -/
def PreferenceAction.touches (env : PreferenceEnv) (userId key : String) :
    PreferenceAction → Bool
  | .updateUserPreferences user object now =>
    ((PreferenceAction.updateUserPreferences user object now).sets env userId key).isSome
  | .deleteUserPreferences user keys _ =>
    user = userId && (keys.getD [] = [] ||
      (unknownKeys (keys.getD []) = [] && (keys.getD []).contains key))
  | _ => false

section
variable {env : PreferenceEnv} {userId key : String}

theorem stored_upsert (s : PreferenceTable) (user : String) (new : Preferences) (now : Nat) :
    storedPreference (s.upsert ⟨user, new, now⟩ (.update new now)
        (PreferenceRow.userId_update new now)) userId key =
      (if user = userId then new.value key else none).or (storedPreference s userId key) := by
  by_cases same : user = userId
  · subst same
    have row := Table.get_upsert s (a := ⟨user, new, now⟩) (PreferenceRow.userId_update new now)
    dsimp only at row
    rw [storedPreference, storedPreference, row, Option.bind_some, if_pos rfl]
    cases s.get user with
    | none => rw [Option.map_none, Option.getD_none, Option.bind_none, Option.or_none]
    | some r =>
      rw [Option.map_some, Option.getD_some, PreferenceRow.update, Option.bind_some]
      exact r.prefs.value_merge new key
  · have row := Table.get_upsert_of_ne s (a := ⟨user, new, now⟩)
      (PreferenceRow.userId_update new now) (Ne.symm same)
    rw [storedPreference, storedPreference, row, if_neg same, Option.none_or]

theorem stored_update (s : PreferenceTable) (user : String) (object : PreferenceObject)
    (now : Nat) :
    storedPreference (updateUserPreferences env s user object now).1 userId key =
      ((PreferenceAction.updateUserPreferences user object now).sets env userId key).or
        (storedPreference s userId key) := by
  simp only [updateUserPreferences, PreferenceAction.sets]
  cases checked : validatePrefs env object with
  | error detail =>
    have nothing : (if user = userId then
        (Except.error detail : Except String Preferences).toOption.bind (·.value key)
        else none) = none := by
      split <;> rfl
    rw [nothing, Option.none_or]
  | ok new => exact stored_upsert s user new now

theorem stored_discard (s : PreferenceTable) (user : String) :
    storedPreference (s.discard (·.userId = user)) userId key =
      if user = userId then none else storedPreference s userId key := by
  have row : (s.discard (·.userId = user)).get userId =
      (s.get userId).filter fun r => !decide (r.userId = user) := Table.get_discard s _ userId
  rw [storedPreference, row, storedPreference]
  cases found : s.get userId with
  | none => simp
  | some r =>
    have own : r.userId = userId := (Table.get_mem found).2
    by_cases same : user = userId
    · rw [if_pos same, Option.filter_some, own, same]
      simp
    · rw [if_neg same, Option.filter_some, own]
      simp [Ne.symm same]

theorem stored_drop (s : PreferenceTable) (user : String) (keys : List String) (now : Nat) :
    storedPreference (s.modify user (.drop keys now) (PreferenceRow.userId_drop keys now))
        userId key =
      if user = userId ∧ keys.contains key = true then none
      else storedPreference s userId key := by
  rw [storedPreference, Table.get_modify, storedPreference]
  by_cases same : user = userId
  · rw [if_pos same.symm]
    cases s.get userId with
    | none => simp
    | some r =>
      rw [Option.map_some, Option.bind_some, Option.bind_some, PreferenceRow.drop,
        Preferences.value_remove]
      simp [same]
  · rw [if_neg (Ne.symm same), if_neg (fun both => same both.1)]

theorem stored_delete (s : PreferenceTable) (user : String) (keys : Option (List String))
    (now : Nat) :
    storedPreference (deleteUserPreferences env s user keys now).1 userId key =
      if (PreferenceAction.deleteUserPreferences user keys now).touches env userId key then none
      else storedPreference s userId key := by
  simp only [deleteUserPreferences, PreferenceAction.touches]
  by_cases none_named : keys.getD [] = []
  · rw [if_pos none_named, stored_discard]
    simp [none_named]
  · rw [if_neg none_named]
    by_cases known : unknownKeys (keys.getD []) = []
    · rw [if_pos known, stored_drop]
      simp [none_named, known]
    · rw [if_neg known]
      simp [none_named, known]

/-- A step that does not touch a key leaves it, and one that does leaves what it sets. -/
theorem stored_of_step {x : PreferenceStep} (h : (preferenceStore env).Steps x)
    (userId key : String) :
    storedPreference x.after userId key =
      if x.input.touches env userId key then x.input.sets env userId key
      else storedPreference x.before userId key := by
  obtain ⟨s, a, label, s'⟩ := x
  have h : some (preferenceStep env s a) = some (s', label) := h
  have after : s' = (preferenceStep env s a).1 := congrArg Prod.fst (Option.some.inj h).symm
  subst after
  cases a with
  | getUserPreferences user => rfl
  | updateUserPreferences user object now =>
    refine (stored_update s user object now).trans ?_
    show Option.or _ _ = if Option.isSome _ = true then _ else _
    cases (PreferenceAction.updateUserPreferences user object now).sets env userId key <;> rfl
  | deleteUserPreferences user keys now => exact stored_delete s user keys now
  | userContextBootstrap user enabled => rfl

theorem touches_of_sets {a : PreferenceAction} {v : PreferenceValue}
    (h : a.sets env userId key = some v) : a.touches env userId key = true := by
  cases a with
  | updateUserPreferences user object now =>
    show Option.isSome _ = true
    rw [h]
    rfl
  | getUserPreferences | deleteUserPreferences | userContextBootstrap => cases h

/-- Under a key of a user is what was set there, for good. -/
def preferenceKeeper (env : PreferenceEnv) : Machine.Keeper PreferenceTable PreferenceAction
    PreferenceLabel (String × String) PreferenceValue where
  clock _ := 0
  held s k := (storedPreference s k.1 k.2).map fun v => ⟨v, none⟩
  issues x k g := x.input.sets env k.1 k.2 = some g.value ∧ g.expiresAt = none
  withdraws x k _ := x.input.touches env k.1 k.2 = true

theorem held_preference {s : PreferenceTable} {k : String × String} {g : Grant PreferenceValue} :
    (preferenceKeeper env).held s k = some g ↔
      storedPreference s k.1 k.2 = some g.value ∧ g.expiresAt = none := by
  obtain ⟨v, expiresAt⟩ := g
  show (storedPreference s k.1 k.2).map (fun v => (⟨v, none⟩ : Grant PreferenceValue)) = _ ↔ _
  rw [Option.map_eq_some_iff]
  constructor
  · rintro ⟨v', stored, same⟩
    cases same
    exact ⟨stored, rfl⟩
  · rintro ⟨stored, rfl⟩
    exact ⟨v, stored, rfl⟩

theorem keeps_preferences :
    Machine.Keeps (preferenceStore env) (preferenceKeeper env) fun _ => True where
  clock _ := Nat.le_refl 0
  issued {x k g} step _ issue := by
    have stored := stored_of_step step k.1 k.2
    rw [if_pos (touches_of_sets issue.1)] at stored
    exact held_preference.mpr ⟨stored.trans issue.1, issue.2⟩
  kept {x k g} step _ old stays _ := by
    have stored := stored_of_step step k.1 k.2
    have stays : ¬ x.input.touches env k.1 k.2 = true := stays
    rw [if_neg stays] at stored
    rw [held_preference] at old ⊢
    exact ⟨stored.trans old.1, old.2⟩
  entered {x k g} step _ held := by
    have stored := stored_of_step step k.1 k.2
    obtain ⟨here, good⟩ := held_preference.mp held
    by_cases touched : x.input.touches env k.1 k.2 = true
    · rw [if_pos touched] at stored
      exact .inl ⟨stored.symm.trans here, good⟩
    · rw [if_neg touched] at stored
      exact .inr ⟨held_preference.mpr ⟨stored.symm.trans here, good⟩, touched⟩

/-- The action sets the value under the key of the user, and no later one has touched the key. -/
def LastSet (env : PreferenceEnv) (past : List PreferenceStep) (userId key : String)
    (v : PreferenceValue) : Prop :=
  Machine.Pending (fun y => y.input.sets env userId key = some v)
    (fun y => y.input.touches env userId key = true) past

theorem stored_iff {past later : List PreferenceStep} {x : PreferenceStep}
    {actions : List PreferenceAction}
    (split : (preferenceStore env).run .empty actions = past ++ x :: later)
    (v : PreferenceValue) :
    storedPreference x.before userId key = some v ↔ LastSet env past userId key v := by
  have held := keeps_preferences.held_iff (fun _ => rfl) (fun _ _ => trivial) split
    (k := (userId, key)) (g := ⟨v, none⟩) rfl
  rw [held_preference, and_iff_left rfl] at held
  refine held.trans ?_
  rw [Machine.Keeper.Granted, LastSet]
  exact iff_of_eq (congrArg (Machine.Pending · _ past) (funext fun y => by simp [preferenceKeeper]))

end

/-- What the answer has under the key -/
def PreferenceLabel.value (key : String) : PreferenceLabel → Option PreferenceValue
  | .stored prefs _ => prefs.value key
  | _ => none

/-- Whoever updates, removes and clears what: a user is answered, under each key, what the user
has set there last, unless the key was removed since, or everything was cleared. -/
theorem preference_iff (env : PreferenceEnv) {actions : List PreferenceAction}
    {past later : List PreferenceStep} {x : PreferenceStep}
    (split : (preferenceStore env).run .empty actions = past ++ x :: later) {userId : String}
    (get : x.input = .getUserPreferences userId) (key : String) (v : PreferenceValue) :
    x.label.value key = some v ↔ LastSet env past userId key v := by
  have step : (preferenceStore env).Steps x := Machine.steps_of_run split
  rw [← stored_iff split v]
  obtain ⟨s, a, label, s'⟩ := x
  dsimp only at get
  subst get
  have same : some (preferenceStep env s (.getUserPreferences userId)) = some (s', label) := step
  cases same
  show (getUserPreferences s userId).value key = some v ↔ storedPreference s userId key = some v
  rw [getUserPreferences, storedPreference]
  cases s.get userId <;> rfl

/-- The text for the model has a line for each key that is set, in the order of the keys, with a
value that the schema allows, and nothing else of what users have sent. -/
theorem context_iff (env : PreferenceEnv) {actions : List PreferenceAction}
    {past later : List PreferenceStep} {x : PreferenceStep}
    (split : (preferenceStore env).run .empty actions = past ++ x :: later) {userId : String}
    (named : userId ≠ "") (get : x.input = .userContextBootstrap (some userId) true) :
    ∃ members, x.label = .context (contextText members) ∧
      members.Pairwise (fun a b => a.1 < b.1) ∧ (∀ p ∈ members, allowedPreference p = true) ∧
      ∀ key v, (key, v) ∈ members ↔ LastSet env past userId key v := by
  have step : (preferenceStore env).Steps x := Machine.steps_of_run split
  obtain ⟨s, a, label, s'⟩ := x
  dsimp only at get
  subst get
  have same : some (preferenceStep env s (.userContextBootstrap (some userId) true)) =
      some (s', label) := step
  cases same
  refine ⟨((s.get userId).map (·.prefs.sorted)).getD [], ?_, ?_, ?_, fun key v => ?_⟩
  · show PreferenceLabel.context (userContextBootstrap s (some userId) true) = _
    rw [userContextBootstrap, Option.filter_some, if_pos (by simpa using named)]
    simp
  · cases s.get userId with
    | none => exact .nil
    | some row => exact row.prefs.pairwise_sorted
  · cases s.get userId with
    | none => exact fun p hp => absurd hp List.not_mem_nil
    | some row => exact fun p hp => row.prefs.allowed p (List.mem_mergeSort.mp hp)
  · rw [← stored_iff split v]
    show _ ↔ storedPreference s userId key = some v
    rw [storedPreference]
    cases s.get userId with
    | none => simp
    | some row =>
      rw [Option.bind_some, Preferences.value_eq_some_iff]
      exact List.mem_mergeSort

/-! ## Two users -/

def quotingEnv : PreferenceEnv := ⟨fun s => "'" ++ s ++ "'"⟩

def themeOf (theme : String) : PreferenceObject := ⟨[("ui_theme", .str theme)], by simp⟩

/-- A theme that is none is refused, another user's is not seen, and a removed key is gone. -/
def twoUsers : List PreferenceAction :=
  [.updateUserPreferences "ann" (themeOf "dark") 1, .updateUserPreferences "ann" (themeOf "x") 2,
    .updateUserPreferences "bob" (themeOf "light") 3, .getUserPreferences "ann",
    .userContextBootstrap (some "bob") true, .deleteUserPreferences "bob" (some ["ui_theme"]) 4]

theorem twoUsers_length : ((preferenceStore quotingEnv).run .empty twoUsers).length = 6 := rfl

theorem ann_dark : ∃ past x later,
    (preferenceStore quotingEnv).run .empty twoUsers = past ++ x :: later ∧
      x.input = .getUserPreferences "ann" ∧
      LastSet quotingEnv past "ann" "ui_theme" (.str "dark") := by
  have here := Machine.run_at 3 (by rw [twoUsers_length]; omega)
  exact ⟨_, _, _, here, rfl,
    (preference_iff quotingEnv here rfl "ui_theme" (.str "dark")).mp (by decide +kernel)⟩

theorem bob_light : ∃ past x later,
    (preferenceStore quotingEnv).run .empty twoUsers = past ++ x :: later ∧
      ∃ members, x.label = .context (contextText members) ∧
        members.Pairwise (fun a b => a.1 < b.1) ∧ (∀ p ∈ members, allowedPreference p = true) ∧
        ∀ key v, (key, v) ∈ members ↔ LastSet quotingEnv past "bob" key v := by
  have here := Machine.run_at 4 (by rw [twoUsers_length]; omega)
  exact ⟨_, _, _, here, context_iff quotingEnv here (by decide) rfl⟩

end LegionForge.Gateway
