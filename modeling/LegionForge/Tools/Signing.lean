import LegionForge.Audit.Row
import LegionForge.Audit.RoundTrip
import LegionForge.Lib.Hex
import LegionForge.Lib.JsonCompact

/-!
# Signed tool manifests

What is signed is a JSON text: the five fields under their names, the names sorted, the side
effects sorted, no spaces. Signing and verifying build it by the same function, so what
decides is how much of a manifest the text determines. The texts and the side effects it
determines, and of the schema everything but two things a Python value tells apart and JSON
does not: a key that is no string and the string JSON writes for it, and a tuple and a list.

`signature_covers_iff` says that these are the only ways for a signature to pass on a
manifest that differs from the signed one.
-/

namespace LegionForge.Tools

open LegionForge.Audit (PyVal PyKey PyFloat sortItems sortable dumpableList dumpableItems canonList
  canonItems)
open JsonText (Json compact compact_injective)

/-! ## Manifests -/

/-- A value of an input schema: what `json.dumps` accepts. Of the floats only the finite
ones: the others are written too, as `NaN` and `Infinity`, which no JSON text has. -/
inductive SchemaValue where
  | none
  | bool (b : Bool)
  | int (n : Int)
  | float (f : PyFloat)
  | str (s : String)
  | list (xs : List SchemaValue)
  | tuple (xs : List SchemaValue)
  | dict (items : List (PyKey × SchemaValue))

mutual

/-- What `json.dumps` takes the value for: a tuple is written as a list. -/
def SchemaValue.written : SchemaValue → PyVal
  | .none => .none
  | .bool b => .bool b
  | .int n => .int n
  | .float f => .float f
  | .str s => .str s
  | .list xs => .list (writtenList xs)
  | .tuple xs => .list (writtenList xs)
  | .dict items => .dict (writtenItems items)

def writtenList : List SchemaValue → List PyVal
  | [] => []
  | x :: xs => x.written :: writtenList xs

def writtenItems : List (PyKey × SchemaValue) → List (PyKey × PyVal)
  | [] => []
  | (k, v) :: items => (k, v.written) :: writtenItems items

end

/-- The fields of a manifest that are signed; the schema by its items. -/
structure SignedManifest where
  toolId : String
  description : String
  inputSchema : List (PyKey × SchemaValue)
  declaredSideEffects : List String
  version : String

/-- `sorted` of the declared side effects. -/
def SignedManifest.sideEffects (m : SignedManifest) : List String :=
  m.declaredSideEffects.insertionSort (· ≤ ·)

/-- The members of `payload`. -/
def SignedManifest.payload (m : SignedManifest) : List (String × PyVal) :=
  [("declared_side_effects", .list (m.sideEffects.map .str)),
    ("description", .str m.description),
    ("input_schema", (SchemaValue.dict m.inputSchema).written),
    ("tool_id", .str m.toolId),
    ("version", .str m.version)]

section Canonical

variable (floatVal : PyFloat → ℚ)

/-- `_canonical_manifest`, `none` for the `TypeError` of `json.dumps`. -/
def canonicalManifest (m : SignedManifest) : Option ByteArray :=
  let payload := PyVal.dict (m.payload.map fun (k, v) => (.str k, v))
  if payload.dumpable then
    some (String.ofList (compact (payload.canon floatVal))).toByteArray
  else none

/-! ## Signing and verifying -/

/-- What the package does with Ed25519 keys. -/
structure Ed25519 (SK PK : Type) where
  publicKey : SK → PK
  sign : SK → ByteArray → List UInt8
  verify : PK → List UInt8 → ByteArray → Bool
  fromPublicBytes : List UInt8 → Option PK

/-- A process: whether it has the package, and the private key it loads. -/
structure Signer (SK : Type) where
  cryptoAvailable : Bool
  loadedKey : Option SK

/-- `_get_signing_private_key`, `none` for its `RuntimeError`. -/
def Signer.privateKey {SK : Type} (p : Signer SK) : Option SK :=
  if p.cryptoAvailable then p.loadedKey else none

variable {SK PK : Type} (ed : Ed25519 SK PK)

/-- `sign_tool_manifest`, `none` where it raises. -/
def signToolManifest (p : Signer SK) (m : SignedManifest) : Option String :=
  match p.privateKey, canonicalManifest floatVal m with
  | some privateKey, some message =>
    some (String.ofList (Hex.encode (ed.sign privateKey message)))
  | _, _ => none

/-- The public key a call asks for, or that of the loaded private key. -/
def verifyingKey (p : Signer SK) (publicKeyHex : Option String) : Option PK :=
  match publicKeyHex.filter (· ≠ "") with
  | some hex => (Hex.decode hex.toList).bind ed.fromPublicBytes
  | none => p.privateKey.map ed.publicKey

/-- `verify_tool_signature` -/
def verifyToolSignature (p : Signer SK) (m : SignedManifest) (signatureHex : String)
    (publicKeyHex : Option String) : Bool :=
  if p.cryptoAvailable then
    match verifyingKey ed p publicKeyHex, canonicalManifest floatVal m,
      Hex.decode signatureHex.toList with
    | some publicKey, some message, some signature => ed.verify publicKey signature message
    | _, _, _ => false
  else false

/-- A signature is accepted for the message it was made of and with the public key of the
private key it was made with, and not otherwise. -/
def Ed25519.Exact : Prop :=
  ∀ privateKey publicKey message other,
    ed.verify publicKey (ed.sign privateKey message) other = true ↔
      publicKey = ed.publicKey privateKey ∧ other = message

end Canonical

/-! ## Agreement -/

/-- The same key; floats by the decimal they are read back from. -/
def PyKey.Same : PyKey → PyKey → Prop
  | .float f, .float g => f.repr = g.repr
  | k, l => k = l

mutual

/-- The same value. The items of a dict have no order. -/
inductive Same : SchemaValue → SchemaValue → Prop
  | none : Same .none .none
  | bool (b : Bool) : Same (.bool b) (.bool b)
  | int (n : Int) : Same (.int n) (.int n)
  | float {f g : PyFloat} (decimal : f.repr = g.repr) : Same (.float f) (.float g)
  | str (s : String) : Same (.str s) (.str s)
  | list {xs ys : List SchemaValue} (elements : SameList xs ys) : Same (.list xs) (.list ys)
  | tuple {xs ys : List SchemaValue} (elements : SameList xs ys) : Same (.tuple xs) (.tuple ys)
  | dict {items items' ordered ordered' : List (PyKey × SchemaValue)}
      (order : ordered.Perm items) (order' : ordered'.Perm items')
      (members : SameItems ordered ordered') : Same (.dict items) (.dict items')

inductive SameList : List SchemaValue → List SchemaValue → Prop
  | nil : SameList [] []
  | cons {x y : SchemaValue} {xs ys : List SchemaValue} (head : Same x y) (tail : SameList xs ys) :
      SameList (x :: xs) (y :: ys)

inductive SameItems : List (PyKey × SchemaValue) → List (PyKey × SchemaValue) → Prop
  | nil : SameItems [] []
  | cons {k l : PyKey} {v w : SchemaValue} {items items' : List (PyKey × SchemaValue)}
      (key : PyKey.Same k l) (value : Same v w) (others : SameItems items items') :
      SameItems ((k, v) :: items) ((l, w) :: items')

end

/-- The manifests agree on every signed field. -/
structure Agree (m m' : SignedManifest) : Prop where
  toolId : m.toolId = m'.toolId
  description : m.description = m'.description
  inputSchema : Same (.dict m.inputSchema) (.dict m'.inputSchema)
  sideEffects : m.declaredSideEffects.Perm m'.declaredSideEffects
  version : m.version = m'.version

/-- The elements of a list or a tuple -/
def SchemaValue.elements? : SchemaValue → Option (List SchemaValue)
  | .list xs | .tuple xs => some xs
  | _ => Option.none

section Kinds

variable (floatVal : PyFloat → ℚ)

mutual

/-- The same value but for kinds: a list may be a tuple, and a key one that JSON writes
alike, the keys taken in the order Python sorts them in. -/
inductive Alike : SchemaValue → SchemaValue → Prop
  | none : Alike .none .none
  | bool (b : Bool) : Alike (.bool b) (.bool b)
  | int (n : Int) : Alike (.int n) (.int n)
  | float {f g : PyFloat} (decimal : f.repr = g.repr) : Alike (.float f) (.float g)
  | str (s : String) : Alike (.str s) (.str s)
  | sequence {v w : SchemaValue} {xs ys : List SchemaValue} (left : v.elements? = some xs)
      (right : w.elements? = some ys) (elements : AlikeList xs ys) : Alike v w
  | dict {items items' : List (PyKey × SchemaValue)} (sorts : sortable items = true)
      (sorts' : sortable items' = true)
      (members : AlikeItems (sortItems floatVal items) (sortItems floatVal items')) :
      Alike (.dict items) (.dict items')

inductive AlikeList : List SchemaValue → List SchemaValue → Prop
  | nil : AlikeList [] []
  | cons {x y : SchemaValue} {xs ys : List SchemaValue} (head : Alike x y)
      (tail : AlikeList xs ys) : AlikeList (x :: xs) (y :: ys)

inductive AlikeItems : List (PyKey × SchemaValue) → List (PyKey × SchemaValue) → Prop
  | nil : AlikeItems [] []
  | cons {k l : PyKey} {v w : SchemaValue} {items items' : List (PyKey × SchemaValue)}
      (key : k.text = l.text) (value : Alike v w) (others : AlikeItems items items') :
      AlikeItems ((k, v) :: items) ((l, w) :: items')

end

/-- The manifests are alike in the schema, and agree on the other fields. -/
structure WrittenAlike (m m' : SignedManifest) : Prop where
  toolId : m.toolId = m'.toolId
  description : m.description = m'.description
  inputSchema : Alike floatVal (.dict m.inputSchema) (.dict m'.inputSchema)
  sideEffects : m.declaredSideEffects.Perm m'.declaredSideEffects
  version : m.version = m'.version

/-- The manifests differ, but in nothing else than kinds within the schema. -/
structure DifferInKind (m m' : SignedManifest) : Prop extends WrittenAlike floatVal m m' where
  differ : ¬ Same (.dict m.inputSchema) (.dict m'.inputSchema)

end Kinds

/-! ## What the text says of the schema -/

section Tree

variable (floatVal : PyFloat → ℚ)

/-- The tree of a value. -/
def tree (v : SchemaValue) : Json := v.written.canon floatVal

theorem writtenList_eq_map (xs : List SchemaValue) :
    writtenList xs = xs.map SchemaValue.written := by
  induction xs with
  | nil => rfl
  | cons x xs ih => rw [writtenList, ih, List.map_cons]

theorem writtenItems_eq_map (items : List (PyKey × SchemaValue)) :
    writtenItems items = items.map fun (k, v) => (k, v.written) := by
  induction items with
  | nil => rfl
  | cons item items ih => rw [writtenItems, ih, List.map_cons]

theorem canonList_eq_map (xs : List PyVal) :
    canonList floatVal xs = xs.map (·.canon floatVal) := by
  induction xs with
  | nil => rfl
  | cons x xs ih => rw [canonList, ih, List.map_cons]

theorem sortable_written (items : List (PyKey × SchemaValue)) :
    sortable (writtenItems items) = sortable items := by
  rw [writtenItems_eq_map, sortable, sortable, List.length_map, List.all_map, List.all_map]
  rfl

theorem dumpable_dict (items : List (PyKey × SchemaValue)) :
    (SchemaValue.dict items).written.dumpable = true ↔
      sortable items = true ∧ ∀ item ∈ items, item.2.written.dumpable = true := by
  rw [SchemaValue.written, PyVal.dumpable, Bool.and_eq_true, sortable_written,
    Audit.dumpableItems_iff, writtenItems_eq_map, List.forall_mem_map]

theorem written_elements {v : SchemaValue} {xs : List SchemaValue}
    (elements : v.elements? = some xs) : v.written = .list (writtenList xs) := by
  cases v <;> cases elements <;> rfl

theorem tree_elements {v : SchemaValue} {xs : List SchemaValue}
    (elements : v.elements? = some xs) : tree floatVal v = .arr (xs.map (tree floatVal)) := by
  rw [tree, written_elements elements, PyVal.canon, canonList_eq_map, writtenList_eq_map,
    List.map_map]
  rfl

theorem tree_dict (items : List (PyKey × SchemaValue)) :
    tree floatVal (.dict items) =
      .obj ((sortItems floatVal items).map fun (k, v) => (k.text, tree floatVal v)) := by
  rw [tree, SchemaValue.written, Audit.canon_dict, writtenItems_eq_map, Audit.sortItems_map,
    List.map_map]
  rfl

/-- A float is written with a point or an exponent, a whole number with neither. -/
theorem intText_ne_repr (n : Int) (f : PyFloat) : Audit.intText n ≠ f.repr := by
  intro same
  have digits : ∀ c ∈ Audit.intText n, c = '-' ∨ c.isDigit = true := by
    intro c hc
    rcases List.mem_append.mp hc with sign | digit
    · left
      cases neg : decide (n < 0) <;> rw [neg] at sign <;> simp [Audit.signText] at sign
      exact sign
    · exact .inr (Nat.isDigit_of_mem_toDigits (by omega) (by omega) digit)
  have mark : '.' ∈ f.repr ∨ 'e' ∈ f.repr := by
    rw [PyFloat.repr]
    split_ifs
    all_goals simp
  rcases mark with point | exponent
  · rcases digits '.' (same ▸ point) with h | h <;> exact absurd h (by decide)
  · rcases digits 'e' (same ▸ exponent) with h | h <;> exact absurd h (by decide)

/-- What is written as an array is a list or a tuple. -/
theorem elements_of_tree {v w : SchemaValue} {xs : List SchemaValue}
    (elements : v.elements? = some xs) (same : tree floatVal v = tree floatVal w) :
    ∃ ys, w.elements? = some ys ∧ xs.map (tree floatVal) = ys.map (tree floatVal) := by
  rw [tree_elements floatVal elements] at same
  cases h : w.elements? with
  | some ys =>
    rw [tree_elements floatVal h, Json.arr.injEq] at same
    exact ⟨ys, rfl, same⟩
  | none =>
    cases w with
    | list ys | tuple ys => cases h
    | _ => simp [tree, SchemaValue.written, PyVal.canon] at same

theorem alikeItems_of_map {items items' : List (PyKey × SchemaValue)}
    (values : ∀ item ∈ items, ∀ item' ∈ items', tree floatVal item.2 = tree floatVal item'.2 →
      Alike floatVal item.2 item'.2)
    (same : items.map (fun (k, v) => (k.text, tree floatVal v)) =
      items'.map fun (k, v) => (k.text, tree floatVal v)) : AlikeItems floatVal items items' := by
  induction items generalizing items' with
  | nil =>
    cases items' with
    | nil => exact .nil
    | cons item' items' => cases same
  | cons item items ih =>
    cases items' with
    | nil => cases same
    | cons item' items' =>
      obtain ⟨head, tail⟩ := List.cons.inj same
      obtain ⟨key, value⟩ := Prod.mk.inj head
      refine .cons key (values _ List.mem_cons_self _ List.mem_cons_self value) (ih ?_ tail)
      intro i hi j hj
      exact values i (List.mem_cons_of_mem _ hi) j (List.mem_cons_of_mem _ hj)

mutual

/-- Written alike, the values are alike. -/
theorem alike_of_tree : ∀ v w : SchemaValue, v.written.dumpable = true →
    w.written.dumpable = true → tree floatVal v = tree floatVal w → Alike floatVal v w
  | .none, w, _, _, same => by
      cases w with
      | none => exact .none
      | _ => simp [tree, SchemaValue.written, PyVal.canon] at same
  | .bool b, w, _, _, same => by
      cases w with
      | bool c =>
        have value : b = c := by simpa [tree, SchemaValue.written, PyVal.canon] using same
        exact value ▸ .bool b
      | _ => simp [tree, SchemaValue.written, PyVal.canon] at same
  | .int n, w, _, _, same => by
      cases w with
      | int k =>
        exact Audit.intText_inj (congrArg JsonText.Token.text (Json.num.inj same)) ▸ .int n
      | float g =>
        exact absurd (congrArg JsonText.Token.text (Json.num.inj same)) (intText_ne_repr n g)
      | _ => simp [tree, SchemaValue.written, PyVal.canon] at same
  | .float f, w, _, _, same => by
      cases w with
      | int k =>
        exact absurd (congrArg JsonText.Token.text (Json.num.inj same)).symm (intText_ne_repr k f)
      | float g => exact .float (congrArg JsonText.Token.text (Json.num.inj same))
      | _ => simp [tree, SchemaValue.written, PyVal.canon] at same
  | .str s, w, _, _, same => by
      cases w with
      | str t =>
        have value : s = t := by simpa [tree, SchemaValue.written, PyVal.canon] using same
        exact value ▸ .str s
      | _ => simp [tree, SchemaValue.written, PyVal.canon] at same
  | .list xs, w, dumps, dumps', same => by
      obtain ⟨ys, elements, same⟩ := elements_of_tree floatVal rfl same
      rw [SchemaValue.written, PyVal.dumpable] at dumps
      rw [written_elements elements, PyVal.dumpable] at dumps'
      exact .sequence rfl elements (alikeList_of_tree xs ys dumps dumps' same)
  | .tuple xs, w, dumps, dumps', same => by
      obtain ⟨ys, elements, same⟩ := elements_of_tree floatVal rfl same
      rw [SchemaValue.written, PyVal.dumpable] at dumps
      rw [written_elements elements, PyVal.dumpable] at dumps'
      exact .sequence rfl elements (alikeList_of_tree xs ys dumps dumps' same)
  | .dict items, w, dumps, dumps', same => by
      rw [tree_dict] at same
      cases w with
      | dict items' =>
        rw [tree_dict, Json.obj.injEq] at same
        obtain ⟨sorts, -⟩ := (dumpable_dict items).mp dumps
        obtain ⟨sorts', values'⟩ := (dumpable_dict items').mp dumps'
        have members := alikeMembers_of_tree items ((dumpable_dict items).mp dumps).2
        refine .dict sorts sorts' (alikeItems_of_map floatVal ?_ same)
        intro item hi item' hi'
        have old := (List.perm_insertionSort _ _).mem_iff.mp hi
        have old' := (List.perm_insertionSort _ _).mem_iff.mp hi'
        exact members item old item'.2 (values' item' old')
      | _ => simp [tree, SchemaValue.written, PyVal.canon] at same

theorem alikeList_of_tree : ∀ xs ys : List SchemaValue, dumpableList (writtenList xs) = true →
    dumpableList (writtenList ys) = true → xs.map (tree floatVal) = ys.map (tree floatVal) →
    AlikeList floatVal xs ys
  | [], [], _, _, _ => .nil
  | [], _ :: _, _, _, same => by cases same
  | _ :: _, [], _, _, same => by cases same
  | x :: xs, y :: ys, dumps, dumps', same => by
      obtain ⟨head, tail⟩ := List.cons.inj same
      rw [writtenList, dumpableList, Bool.and_eq_true] at dumps dumps'
      exact .cons (alike_of_tree x y dumps.1 dumps'.1 head)
        (alikeList_of_tree xs ys dumps.2 dumps'.2 tail)

theorem alikeMembers_of_tree : ∀ items : List (PyKey × SchemaValue),
    (∀ item ∈ items, item.2.written.dumpable = true) →
    ∀ item ∈ items, ∀ w, w.written.dumpable = true →
      tree floatVal item.2 = tree floatVal w → Alike floatVal item.2 w
  | [], _, _, member, _, _, _ => by cases member
  | (k, v) :: items, dumps, item, member, w, dumps', same => by
      rcases List.mem_cons.mp member with rfl | later
      · exact alike_of_tree v w (dumps _ List.mem_cons_self) dumps' same
      · exact alikeMembers_of_tree items (fun i hi => dumps i (List.mem_cons_of_mem _ hi)) item
          later w dumps' same

end

theorem tree_of_items {items items' : List (PyKey × SchemaValue)} (same :
    (sortItems floatVal items).map (fun (k, v) => (k.text, tree floatVal v)) =
      (sortItems floatVal items').map fun (k, v) => (k.text, tree floatVal v)) :
    tree floatVal (.dict items) = tree floatVal (.dict items') := by
  rw [tree_dict, tree_dict, same]

theorem dumpable_sorted {items : List (PyKey × SchemaValue)} (sorts : sortable items = true)
    (values : ∀ item ∈ sortItems floatVal items, item.2.written.dumpable = true) :
    (SchemaValue.dict items).written.dumpable = true :=
  (dumpable_dict items).mpr ⟨sorts, fun item member =>
    values item ((List.perm_insertionSort _ _).mem_iff.mpr member)⟩

mutual

/-- Alike, the values are written, and alike. -/
theorem tree_of_alike : ∀ {v w : SchemaValue}, Alike floatVal v w →
    v.written.dumpable = true ∧ w.written.dumpable = true ∧ tree floatVal v = tree floatVal w
  | _, _, .none => ⟨rfl, rfl, rfl⟩
  | _, _, .bool _ => ⟨rfl, rfl, rfl⟩
  | _, _, .int _ => ⟨rfl, rfl, rfl⟩
  | _, _, .float decimal => by
      refine ⟨rfl, rfl, ?_⟩
      simp only [tree, SchemaValue.written, PyVal.canon, PyFloat.token, decimal]
  | _, _, .str _ => ⟨rfl, rfl, rfl⟩
  | _, _, .sequence left right elements => by
      obtain ⟨dumps, dumps', same⟩ := trees_of_alike elements
      rw [written_elements left, written_elements right, tree_elements floatVal left,
        tree_elements floatVal right, same]
      exact ⟨dumps, dumps', rfl⟩
  | _, _, .dict sorts sorts' members => by
      obtain ⟨values, values', same⟩ := members_of_alike members
      exact ⟨dumpable_sorted floatVal sorts values, dumpable_sorted floatVal sorts' values',
        tree_of_items floatVal same⟩

theorem trees_of_alike : ∀ {xs ys : List SchemaValue}, AlikeList floatVal xs ys →
    dumpableList (writtenList xs) = true ∧ dumpableList (writtenList ys) = true ∧
      xs.map (tree floatVal) = ys.map (tree floatVal)
  | _, _, .nil => ⟨rfl, rfl, rfl⟩
  | _, _, .cons head tail => by
      obtain ⟨one, one', first⟩ := tree_of_alike head
      obtain ⟨more, more', rest⟩ := trees_of_alike tail
      rw [writtenList, writtenList, dumpableList, dumpableList, List.map_cons, List.map_cons, one,
        one', more, more', first, rest]
      exact ⟨rfl, rfl, rfl⟩

theorem members_of_alike : ∀ {items items' : List (PyKey × SchemaValue)},
    AlikeItems floatVal items items' →
    (∀ item ∈ items, item.2.written.dumpable = true) ∧
      (∀ item ∈ items', item.2.written.dumpable = true) ∧
      items.map (fun (k, v) => (k.text, tree floatVal v)) =
        items'.map fun (k, v) => (k.text, tree floatVal v)
  | _, _, .nil => by simp
  | _, _, .cons key value others => by
      obtain ⟨one, one', first⟩ := tree_of_alike value
      obtain ⟨more, more', rest⟩ := members_of_alike others
      refine ⟨List.forall_mem_cons.mpr ⟨one, more⟩, List.forall_mem_cons.mpr ⟨one', more'⟩, ?_⟩
      rw [List.map_cons, List.map_cons, rest]
      simp only [key, first]

end

end Tree

/-! ## What the text says of the manifest -/

section Text

variable {floatVal : PyFloat → ℚ}

/-- The members of the payload are in their order already. -/
theorem payload_tree (m : SignedManifest) :
    (PyVal.dict (m.payload.map fun (k, v) => (.str k, v))).canon floatVal =
      .obj [("declared_side_effects", .arr (m.sideEffects.map .str)),
        ("description", .str m.description),
        ("input_schema", tree floatVal (.dict m.inputSchema)),
        ("tool_id", .str m.toolId),
        ("version", .str m.version)] := by
  have ordered : m.payload.Pairwise fun a b => a.1 ≤ b.1 := by
    have names : (m.payload.map Prod.fst).Pairwise (· ≤ ·) := by
      show ["declared_side_effects", "description", "input_schema", "tool_id",
        "version"].Pairwise (· ≤ ·)
      decide
    exact List.pairwise_map.mp names
  have effects : (PyVal.list (m.sideEffects.map .str)).canon floatVal =
      .arr (m.sideEffects.map .str) := by
    rw [PyVal.canon, canonList_eq_map, List.map_map]
    rfl
  rw [Audit.canon_dict_str, ordered.insertionSort_eq, SignedManifest.payload]
  simp only [List.map_cons, List.map_nil, effects]
  rfl

theorem payload_dumpable (m : SignedManifest) :
    (PyVal.dict (m.payload.map fun (k, v) => (.str k, v))).dumpable =
      (SchemaValue.dict m.inputSchema).written.dumpable := by
  have effects : (PyVal.list (m.sideEffects.map .str)).dumpable = true := by
    rw [PyVal.dumpable]
    induction m.sideEffects with
    | nil => rfl
    | cons s effects ih => exact ih
  rw [PyVal.dumpable, SignedManifest.payload]
  have text : ∀ s, (PyVal.str s).dumpable = true := fun _ => rfl
  simp only [List.map_cons, List.map_nil, dumpableItems, effects, text, Bool.and_true,
    Bool.true_and]
  exact Bool.true_and _

theorem sideEffects_eq_iff (m m' : SignedManifest) :
    m.sideEffects = m'.sideEffects ↔ m.declaredSideEffects.Perm m'.declaredSideEffects := by
  have sorted := List.perm_insertionSort (fun s t : String => s ≤ t)
  constructor
  · intro same
    exact ((sorted m.declaredSideEffects).symm.trans (.of_eq same)).trans
      (sorted m'.declaredSideEffects)
  · intro order
    exact List.Perm.eq_of_pairwise' (List.pairwise_insertionSort _ _)
      (List.pairwise_insertionSort _ _)
      (((sorted m.declaredSideEffects).trans order).trans (sorted m'.declaredSideEffects).symm)

/-- Two manifests have one text where they are written alike. -/
theorem same_text_iff (m m' : SignedManifest) :
    (∃ message, canonicalManifest floatVal m = some message ∧
      canonicalManifest floatVal m' = some message) ↔ WrittenAlike floatVal m m' := by
  constructor
  · rintro ⟨message, text, text'⟩
    rw [canonicalManifest] at text text'
    simp only [payload_dumpable, payload_tree] at text text'
    split at text
    · next dumps =>
      split at text'
      · next dumps' =>
        have bytes := (Option.some.inj text).trans (Option.some.inj text').symm
        have trees := compact_injective (String.ofList_injective (String.toByteArray_inj.mp bytes))
        simp only [Json.obj.injEq, List.cons.injEq, Prod.mk.injEq, true_and, and_true,
          Json.arr.injEq, Json.str.injEq] at trees
        obtain ⟨effects, description, schema, toolId, version⟩ := trees
        have effects : m.sideEffects = m'.sideEffects :=
          List.map_injective_iff.mpr (fun _ _ => Json.str.inj) effects
        exact ⟨toolId, description, alike_of_tree floatVal _ _ dumps dumps' schema,
          (sideEffects_eq_iff m m').mp effects, version⟩
      · cases text'
    · cases text
  · intro alike
    obtain ⟨dumps, dumps', schema⟩ := tree_of_alike floatVal alike.inputSchema
    have effects := (sideEffects_eq_iff m m').mpr alike.sideEffects
    have same : canonicalManifest floatVal m' = canonicalManifest floatVal m := by
      rw [canonicalManifest, canonicalManifest]
      simp only [payload_dumpable, payload_tree]
      rw [if_pos dumps, if_pos dumps', alike.toolId, alike.description, alike.version, effects,
        schema]
    have text : ∃ message, canonicalManifest floatVal m = some message := by
      rw [canonicalManifest]
      simp only [payload_dumpable]
      rw [if_pos dumps]
      exact ⟨_, rfl⟩
    obtain ⟨message, text⟩ := text
    exact ⟨message, text, same.trans text⟩

/-! ## What a signature covers -/

variable {SK PK : Type} {ed : Ed25519 SK PK}

/-- A signature passes on whatever has the text it was made of. -/
theorem passes_of_writtenAlike (exact_ : ed.Exact) {signer : Signer SK} {privateKey : SK}
    (loaded : signer.privateKey = some privateKey) {m m' : SignedManifest}
    (alike : WrittenAlike floatVal m m') :
    ∃ signature, signToolManifest floatVal ed signer m = some signature ∧
      verifyToolSignature floatVal ed signer m' signature none = true := by
  obtain ⟨message, text, text'⟩ := (same_text_iff m m').mpr alike
  have available : signer.cryptoAvailable = true := by
    by_contra missing
    rw [Signer.privateKey, if_neg missing] at loaded
    cases loaded
  refine ⟨String.ofList (Hex.encode (ed.sign privateKey message)), ?_, ?_⟩
  · rw [signToolManifest, loaded, text]
  · have key : verifyingKey ed signer none = some (ed.publicKey privateKey) := by
      show signer.privateKey.map ed.publicKey = _
      rw [loaded]
      rfl
    rw [verifyToolSignature, if_pos available, key, text', String.toList_ofList, Hex.decode_encode]
    exact (exact_ _ _ _ _).mpr ⟨rfl, rfl⟩

/-- And on nothing else, whatever key the verifier goes by. -/
theorem writtenAlike_of_passes (exact_ : ed.Exact) {signer verifier : Signer SK}
    {m m' : SignedManifest} {signature : String} {publicKeyHex : Option String}
    (signed : signToolManifest floatVal ed signer m = some signature)
    (passes : verifyToolSignature floatVal ed verifier m' signature publicKeyHex = true) :
    WrittenAlike floatVal m m' := by
  rw [signToolManifest] at signed
  split at signed
  · next privateKey message _ text =>
    have hex : Hex.decode signature.toList = some (ed.sign privateKey message) := by
      rw [← Option.some.inj signed, String.toList_ofList, Hex.decode_encode]
    rw [verifyToolSignature, hex] at passes
    split at passes
    · split at passes
      · next _ _ _ _ text' same =>
        rw [← Option.some.inj same] at passes
        have one := ((exact_ _ _ _ _).mp passes).2
        exact (same_text_iff m m').mp ⟨message, text, one ▸ text'⟩
      · cases passes
    · cases passes
  · cases signed

/-- A signature made for one manifest passes only on manifests that agree with it on every
signed field, except where the two differ in kinds within the schema alone. -/
theorem signature_covers_iff (exact_ : ed.Exact) {signer : Signer SK} {privateKey : SK}
    (loaded : signer.privateKey = some privateKey) (m m' : SignedManifest) :
    (∀ signature, signToolManifest floatVal ed signer m = some signature →
      ∀ verifier publicKeyHex,
        verifyToolSignature floatVal ed verifier m' signature publicKeyHex = true → Agree m m') ↔
      ¬ DifferInKind floatVal m m' := by
  constructor
  · intro covers kinds
    obtain ⟨signature, signed, passes⟩ := passes_of_writtenAlike exact_ loaded kinds.toWrittenAlike
    exact kinds.differ (covers signature signed signer none passes).inputSchema
  · intro kinds signature signed verifier publicKeyHex passes
    have alike := writtenAlike_of_passes exact_ signed passes
    have same : Same (.dict m.inputSchema) (.dict m'.inputSchema) := by
      by_contra differ
      exact kinds ⟨alike, differ⟩
    exact ⟨alike.toolId, alike.description, same, alike.sideEffects, alike.version⟩

end Text

/-! ## Schemas without kinds to differ in -/

mutual

/-- The keys are strings, and no tuples are used. -/
def SchemaValue.plain : SchemaValue → Bool
  | .list xs => plainList xs
  | .tuple _ => false
  | .dict items => plainItems items
  | _ => true

def plainList : List SchemaValue → Bool
  | [] => true
  | x :: xs => x.plain && plainList xs

def plainItems : List (PyKey × SchemaValue) → Bool
  | [] => true
  | (k, v) :: items => k.isStr && v.plain && plainItems items

end

theorem plainItems_iff (items : List (PyKey × SchemaValue)) :
    plainItems items = true ↔ ∀ item ∈ items, item.1.isStr = true ∧ item.2.plain = true := by
  induction items with
  | nil => simp [plainItems]
  | cons item items ih =>
    rw [plainItems, Bool.and_eq_true, Bool.and_eq_true, ih, List.forall_mem_cons]

theorem PyKey.same_of_text {k l : PyKey} (hk : k.isStr = true) (hl : l.isStr = true)
    (text : k.text = l.text) : PyKey.Same k l := by
  cases k <;> cases hk
  cases l <;> cases hl
  exact congrArg Audit.PyKey.str text

section Plain

variable {floatVal : PyFloat → ℚ}

theorem plain_sorted {items : List (PyKey × SchemaValue)} (plain : plainItems items = true) :
    ∀ item ∈ sortItems floatVal items, item.1.isStr = true ∧ item.2.plain = true :=
  fun item member => (plainItems_iff items).mp plain item
    ((List.perm_insertionSort _ _).mem_iff.mp member)

mutual

theorem same_of_alike : ∀ {v w : SchemaValue}, Alike floatVal v w → v.plain = true →
    w.plain = true → Same v w
  | _, _, .none, _, _ => .none
  | _, _, .bool b, _, _ => .bool b
  | _, _, .int n, _, _ => .int n
  | _, _, .float decimal, _, _ => .float decimal
  | _, _, .str s, _, _ => .str s
  | v, w, .sequence left right elements, plain, plain' => by
      cases v with
      | list xs =>
        cases left
        cases w with
        | list ys =>
          cases right
          exact .list (sameList_of_alike elements plain plain')
        | tuple ys => cases plain'
        | _ => cases right
      | tuple xs => cases plain
      | _ => cases left
  | _, _, .dict _ _ members, plain, plain' =>
      .dict (List.perm_insertionSort _ _) (List.perm_insertionSort _ _)
        (sameItems_of_alike members (plain_sorted plain) (plain_sorted plain'))

theorem sameList_of_alike : ∀ {xs ys : List SchemaValue}, AlikeList floatVal xs ys →
    plainList xs = true → plainList ys = true → SameList xs ys
  | _, _, .nil, _, _ => .nil
  | _, _, .cons head tail, plain, plain' => by
      rw [plainList, Bool.and_eq_true] at plain plain'
      exact .cons (same_of_alike head plain.1 plain'.1) (sameList_of_alike tail plain.2 plain'.2)

theorem sameItems_of_alike : ∀ {items items' : List (PyKey × SchemaValue)},
    AlikeItems floatVal items items' →
    (∀ item ∈ items, item.1.isStr = true ∧ item.2.plain = true) →
    (∀ item ∈ items', item.1.isStr = true ∧ item.2.plain = true) → SameItems items items'
  | _, _, .nil, _, _ => .nil
  | _, _, .cons key value others, plain, plain' => by
      obtain ⟨⟨string, one⟩, more⟩ := List.forall_mem_cons.mp plain
      obtain ⟨⟨string', one'⟩, more'⟩ := List.forall_mem_cons.mp plain'
      exact .cons (PyKey.same_of_text string string' key) (same_of_alike value one one')
        (sameItems_of_alike others more more')

end

/-- Between schemas as JSON has them there is no difference in kind. -/
theorem not_differInKind_of_plain {m m' : SignedManifest}
    (plain : plainItems m.inputSchema = true) (plain' : plainItems m'.inputSchema = true) :
    ¬ DifferInKind floatVal m m' :=
  fun kinds => kinds.differ (same_of_alike kinds.inputSchema plain plain')

end Plain

/-! Keys of one byte: a signature is the key and the message. -/

def byteKeys : Ed25519 UInt8 UInt8 where
  publicKey := id
  sign := fun k message => k :: message.data.toList
  verify := fun k signature message => signature = k :: message.data.toList
  fromPublicBytes := List.head?

theorem byteKeys_exact : byteKeys.Exact := by
  intro k l message other
  have bytes : message.data.toList = other.data.toList ↔ other = message := by
    rw [Array.toList_inj]
    exact ⟨fun same => (ByteArray.ext same).symm, fun same => by rw [same]⟩
  show decide (k :: message.data.toList = l :: other.data.toList) = true ↔ l = k ∧ other = message
  rw [decide_eq_true_iff, List.cons.injEq, bytes, eq_comm]

def byteSigner : Signer UInt8 := ⟨true, some 7⟩

def searchManifest (schema : List (PyKey × SchemaValue)) : SignedManifest :=
  ⟨"search@crystallized", "Searches", schema, ["reads_web", "pure"], "1.0.0"⟩

theorem search_covered :
    ¬ DifferInKind (fun _ => 0) (searchManifest [(.str "x", .str "int")])
        (searchManifest [(.str "x", .list [.str "int"])]) ∧
      ∀ signature,
        signToolManifest (fun _ => 0) byteKeys byteSigner
          (searchManifest [(.str "x", .str "int")]) = some signature →
        ∀ verifier publicKeyHex,
          verifyToolSignature (fun _ => 0) byteKeys verifier
            (searchManifest [(.str "x", .list [.str "int"])]) signature publicKeyHex = true →
          Agree (searchManifest [(.str "x", .str "int")])
            (searchManifest [(.str "x", .list [.str "int"])]) := by
  have plain : ¬ DifferInKind (fun _ => 0) (searchManifest [(.str "x", .str "int")])
      (searchManifest [(.str "x", .list [.str "int"])]) := not_differInKind_of_plain rfl rfl
  exact ⟨plain,
    (@signature_covers_iff _ _ _ byteKeys byteKeys_exact byteSigner 7 rfl _ _).mpr plain⟩

/-- A number as a key, and the string JSON writes for it -/
theorem numberKey_passes : ¬ ∀ (ed : Ed25519 UInt8 UInt8) (m m' : SignedManifest)
    (signer verifier : Signer UInt8) (signature : String) (publicKeyHex : Option String),
    ed.Exact → signToolManifest (fun _ => 0) ed signer m = some signature →
      verifyToolSignature (fun _ => 0) ed verifier m' signature publicKeyHex = true →
      Agree m m' := by
  intro covers
  have alike : Alike (fun _ => 0) (.dict [(.int 1, .str "a")]) (.dict [(.str "1", .str "a")]) :=
    .dict rfl rfl (.cons (by decide) (.str "a") .nil)
  have written : WrittenAlike (fun _ => 0) (searchManifest [(.int 1, .str "a")])
      (searchManifest [(.str "1", .str "a")]) := ⟨rfl, rfl, alike, .refl _, rfl⟩
  obtain ⟨signature, signed, passes⟩ :=
    @passes_of_writtenAlike _ _ _ byteKeys byteKeys_exact byteSigner 7 rfl _ _ written
  have agree := covers byteKeys _ _ byteSigner byteSigner signature none byteKeys_exact
    signed passes
  have same : Same (.dict [(.int 1, .str "a")]) (.dict [(.str "1", .str "a")]) := agree.inputSchema
  cases same with
  | dict order order' members =>
    rw [List.perm_singleton.mp order, List.perm_singleton.mp order'] at members
    cases members with
    | cons key _ _ => cases key

end LegionForge.Tools
