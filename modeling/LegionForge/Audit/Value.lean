import LegionForge.Lib.Delimited
import LegionForge.Lib.JsonText
import Mathlib.Algebra.Order.Ring.Rat
import Mathlib.Data.List.Sort
import Mathlib.Data.String.Basic

/-!
# Payloads: what `json.dumps` writes and what JSONB gives back

A payload is hashed twice. `append_audit_log` hashes the Python value it was
given; `verify_audit_log_chain` hashes the value read back from the JSONB
column. Both go through `json.dumps(payload, sort_keys=True)`, so the two
hashes agree exactly when the text survives the round trip.

Two things on the way are not the identity. `sort_keys` orders the members by
the Python keys, before they are written, while the keys that come back are
strings and order as strings. And JSONB keeps a number as a decimal without
exponent and without a negative zero, so a float written `1e+16` comes back an
integer. `Stable` collects the payloads neither of them touches, and
`canon_readBack_iff` says that those are exactly the payloads whose text
survives.
-/

namespace LegionForge.Audit

open JsonText (Json Token tokenChar render)

/-! ## Numbers -/

/-- A finite float by its shortest decimal form: the value is
`± 0.d₁d₂… * 10 ^ decpt`, and no digits stand for zero. -/
structure PyFloat where
  neg : Bool
  digits : List (Fin 10)
  decpt : Int
  noLeading : digits.head? ≠ some 0
  noTrailing : digits.getLast? ≠ some 0
  short : digits.length ≤ 17
  deriving DecidableEq

def zeros (k : Nat) : List Char := List.replicate k '0'

def digitText (ds : List (Fin 10)) : List Char :=
  ds.map fun d : Fin 10 => Nat.digitChar d.val

def signText (neg : Bool) : List Char := if neg then ['-'] else []

/-- `float.__repr__` leaves positional notation here. -/
def PyFloat.usesExponent (f : PyFloat) : Bool :=
  f.decpt ≤ -4 || 16 < f.decpt

def PyFloat.mantissa (f : PyFloat) : List Char :=
  match digitText f.digits with
  | [] => []
  | [d] => [d]
  | d :: ds => d :: '.' :: ds

/-- `float.__repr__`. -/
def PyFloat.repr (f : PyFloat) : List Char :=
  signText f.neg ++
    if f.digits = [] then ['0', '.', '0']
    else if f.usesExponent then
      f.mantissa ++ 'e' :: (if f.decpt - 1 < 0 then '-' else '+') ::
        Delimited.pad 2 (f.decpt - 1).natAbs
    else if f.decpt ≤ 0 then
      '0' :: '.' :: (zeros (-f.decpt).toNat ++ digitText f.digits)
    else if f.digits.length ≤ f.decpt.toNat then
      digitText f.digits ++ zeros (f.decpt.toNat - f.digits.length) ++ ['.', '0']
    else
      digitText (f.digits.take f.decpt.toNat) ++
        '.' :: digitText (f.digits.drop f.decpt.toNat)

/-- The integer a float of at least seventeen integral digits stands for. -/
def PyFloat.toInt (f : PyFloat) : Int :=
  let n := Nat.ofDigitChars 10
    (digitText f.digits ++ zeros (f.decpt.toNat - f.digits.length)) 0
  if f.neg then -n else n

def PyFloat.zero : PyFloat :=
  ⟨false, [], 0, by decide, by decide, by decide⟩

/-- `int.__repr__`. -/
def intText (n : Int) : List Char :=
  signText (n < 0) ++ Nat.toDigits 10 n.natAbs

/-! ## Values -/

/-- The keys `json.dumps` accepts in a dict. -/
inductive PyKey where
  | str (s : String)
  | int (n : Int)
  | float (f : PyFloat)
  | bool (b : Bool)
  | none
  deriving DecidableEq

/-- The values `json.dumps` accepts, floats finite. -/
inductive PyVal where
  | none
  | bool (b : Bool)
  | int (n : Int)
  | float (f : PyFloat)
  | str (s : String)
  | list (xs : List PyVal)
  | dict (items : List (PyKey × PyVal))

/-- The member name `json.dumps` writes for a key. -/
def PyKey.text : PyKey → String
  | .str s => s
  | .int n => String.ofList (intText n)
  | .float f => String.ofList f.repr
  | .bool true => "true"
  | .bool false => "false"
  | .none => "null"

section Sorting

/- The order of two floats, and of a float and an integer, is that of their
exact binary values, which the shortest decimal only approximates. -/
variable (floatVal : PyFloat → ℚ)

def PyKey.num? : PyKey → Option ℚ
  | .int n => some n
  | .float f => some (floatVal f)
  | .bool b => some (if b then 1 else 0)
  | _ => Option.none

/-- `k₁ <= k₂` where Python can tell; keys of two kinds are not compared. -/
def PyKey.le (k₁ k₂ : PyKey) : Bool :=
  match k₁, k₂ with
  | .str s, .str t => s ≤ t
  | _, _ =>
      match k₁.num? floatVal, k₂.num? floatVal with
      | some x, some y => x ≤ y
      | _, _ => false

/-- `PyDict_Items` followed by `sort`. The items are pairs, but the keys of a
dict are distinct, so the values are never compared. -/
def sortItems {β : Type} (items : List (PyKey × β)) : List (PyKey × β) :=
  items.insertionSort fun a b => a.1.le floatVal b.1

def PyKey.isStr : PyKey → Bool
  | .str _ => true
  | _ => false

def PyKey.isNum : PyKey → Bool
  | .int _ | .float _ | .bool _ => true
  | _ => false

/-- The sort compares every key with another one, so it raises `TypeError` as
soon as two keys have no order. -/
def sortable {β : Type} (items : List (PyKey × β)) : Bool :=
  items.length ≤ 1 || items.all (·.1.isStr) || items.all (·.1.isNum)

mutual

/-- `json.dumps` raises no `TypeError`. -/
def PyVal.dumpable : PyVal → Bool
  | .list xs => dumpableList xs
  | .dict items => sortable items && dumpableItems items
  | _ => true

def dumpableList : List PyVal → Bool
  | [] => true
  | x :: xs => x.dumpable && dumpableList xs

def dumpableItems : List (PyKey × PyVal) → Bool
  | [] => true
  | (_, v) :: items => v.dumpable && dumpableItems items

end

end Sorting

/-! ## Writing -/

theorem tokenChar_digit {c : Char} (h : c.isDigit = true) :
    tokenChar c = true := by
  rw [tokenChar, h]
  rfl

theorem tokenChar_digitChar : ∀ d : Fin 10,
    tokenChar (Nat.digitChar d.val) = true := by decide

theorem tokenChar_digitText (ds : List (Fin 10)) :
    ∀ c ∈ digitText ds, tokenChar c = true := by
  intro c hc
  obtain ⟨d, -, rfl⟩ := List.mem_map.mp hc
  exact tokenChar_digitChar d

theorem tokenChar_zeros (k : Nat) : ∀ c ∈ zeros k, tokenChar c = true := by
  intro c hc
  rw [List.eq_of_mem_replicate hc]
  rfl

theorem tokenChar_sign (neg : Bool) : ∀ c ∈ signText neg, tokenChar c = true := by
  cases neg <;> exact List.all_eq_true.mp rfl

theorem tokenChar_mantissa (f : PyFloat) :
    ∀ c ∈ f.mantissa, tokenChar c = true := by
  intro c hc
  have h := tokenChar_digitText f.digits
  unfold PyFloat.mantissa at hc
  split at hc
  · cases hc
  · next d hd => exact h c (hd ▸ hc)
  · next d ds _ hd =>
      rcases List.mem_cons.mp hc with rfl | hc
      · exact h _ (hd ▸ List.mem_cons_self)
      · rcases List.mem_cons.mp hc with rfl | hc
        · rfl
        · exact h c (hd ▸ List.mem_cons_of_mem _ hc)

theorem tokenChar_pad (w n : Nat) :
    ∀ c ∈ Delimited.pad w n, tokenChar c = true :=
  fun _ hc => tokenChar_digit (Delimited.isDigit_of_mem_pad hc)

theorem tokenChar_repr (f : PyFloat) : ∀ c ∈ f.repr, tokenChar c = true := by
  have hds := tokenChar_digitText
  have hzs := tokenChar_zeros
  unfold PyFloat.repr
  refine List.forall_mem_append.mpr ⟨tokenChar_sign f.neg, ?_⟩
  split_ifs
  · exact List.all_eq_true.mp rfl
  · refine List.forall_mem_append.mpr ⟨tokenChar_mantissa f, ?_⟩
    exact List.forall_mem_cons.mpr
      ⟨rfl, List.forall_mem_cons.mpr ⟨rfl, tokenChar_pad 2 _⟩⟩
  · refine List.forall_mem_append.mpr ⟨tokenChar_mantissa f, ?_⟩
    exact List.forall_mem_cons.mpr
      ⟨rfl, List.forall_mem_cons.mpr ⟨rfl, tokenChar_pad 2 _⟩⟩
  · refine List.forall_mem_cons.mpr ⟨rfl, List.forall_mem_cons.mpr ⟨rfl, ?_⟩⟩
    exact List.forall_mem_append.mpr ⟨hzs _, hds _⟩
  · exact List.forall_mem_append.mpr
      ⟨List.forall_mem_append.mpr ⟨hds _, hzs _⟩, List.all_eq_true.mp rfl⟩
  · exact List.forall_mem_append.mpr
      ⟨hds _, List.forall_mem_cons.mpr ⟨rfl, hds _⟩⟩

theorem tokenChar_intText (n : Int) : ∀ c ∈ intText n, tokenChar c = true := by
  refine List.forall_mem_append.mpr ⟨tokenChar_sign _, fun c hc => ?_⟩
  exact tokenChar_digit (Nat.isDigit_of_mem_toDigits (by omega) (by omega) hc)

theorem repr_ne_nil (f : PyFloat) : f.repr ≠ [] := by
  unfold PyFloat.repr
  split_ifs <;> simp

theorem intText_ne_nil (n : Int) : intText n ≠ [] := by
  simp [intText, Nat.toDigits_ne_nil]

def PyFloat.token (f : PyFloat) : Token :=
  ⟨f.repr, repr_ne_nil f, tokenChar_repr f⟩

def intToken (n : Int) : Token := ⟨intText n, intText_ne_nil n, tokenChar_intText n⟩

section Dumps

variable (floatVal : PyFloat → ℚ)

mutual

/-- The tree `json.dumps(payload, sort_keys=True)` writes. -/
def PyVal.canon : PyVal → Json
  | .none => .null
  | .bool b => .bool b
  | .int n => .num (intToken n)
  | .float f => .num f.token
  | .str s => .str s
  | .list xs => .arr (canonList xs)
  | .dict items =>
      .obj ((sortItems floatVal (canonItems items)).map
        fun (k, j) => (k.text, j))

def canonList : List PyVal → List Json
  | [] => []
  | x :: xs => x.canon :: canonList xs

/-- The members are written first and sorted afterwards, which is the same as
the other way round: the sort looks at the keys only. -/
def canonItems : List (PyKey × PyVal) → List (PyKey × Json)
  | [] => []
  | (k, v) :: items => (k, v.canon) :: canonItems items

end

/-- `json.dumps(payload, sort_keys=True)`, `none` for its `TypeError`. -/
def dumps (v : PyVal) : Option String :=
  if v.dumpable then some (String.ofList (render (v.canon floatVal))) else none

/-! ## Reading back -/

/-- The JSONB text of a float is its decimal expansion with the fractional
digits it was written with, and without a sign on zero. `json.loads` makes an
integer of a text without a point. -/
def PyFloat.readBack (f : PyFloat) : PyVal :=
  if f.digits = [] then .float .zero
  else if 16 < f.decpt then .int f.toInt
  else .float f

/-- Of several members with one name JSONB keeps the last. -/
def lastOfKey {κ β : Type} [DecidableEq κ] : List (κ × β) → List (κ × β)
  | [] => []
  | (k, v) :: items =>
      if k ∈ items.map Prod.fst then lastOfKey items
      else (k, v) :: lastOfKey items

mutual

/-- The payload column as the driver hands it back for a row that was inserted
with `json.dumps` of this value. -/
def PyVal.readBack : PyVal → PyVal
  | .float f => f.readBack
  | .list xs => .list (readBackList xs)
  | .dict items =>
      .dict (lastOfKey ((sortItems floatVal (readBackItems items)).map
        fun (k, v) => (.str k.text, v)))
  | v => v

def readBackList : List PyVal → List PyVal
  | [] => []
  | x :: xs => x.readBack :: readBackList xs

def readBackItems : List (PyKey × PyVal) → List (PyKey × PyVal)
  | [] => []
  | (k, v) :: items => (k, v.readBack) :: readBackItems items

end

end Dumps

end LegionForge.Audit
