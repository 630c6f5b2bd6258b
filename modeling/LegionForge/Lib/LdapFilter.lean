import Mathlib.Data.List.Basic
import Mathlib.Tactic.Common

/-!
# Search filters of directories

The string form of a search filter is a tree in parentheses whose leaves compare an
attribute with a value. A value may hold any character but five, and those by a backslash
and two hexadecimal digits.

A filter may be written with holes for a text that is put into its values later, so the
parser reads such templates as well. It finds a filter exactly in the string form of a
well-formed one (`parseText_iff`).
-/

namespace LdapFilter

/-! ## Filters -/

/-- A piece of a template. -/
inductive Piece where
  | char (c : Char)
  | hole
  deriving DecidableEq, Repr

/-- A piece of a value that is read. -/
inductive Octet where
  | byte (b : UInt8)
  | hole
  deriving DecidableEq, Repr

inductive FilterType where
  | equal
  | approx
  | greaterOrEqual
  | lessOrEqual
  | extensible
  deriving DecidableEq, Repr

/-- A comparison. Between the asterisks of a value are its parts: a value without one has one
part, and an asterisk by itself asks whether the attribute is there at all. -/
structure Item (V : Type) where
  /-- The attribute description; of an extensible match, all before its last colon. -/
  left : List Char
  type : FilterType
  parts : List V
  deriving DecidableEq, Repr

inductive Filter (V : Type) where
  | all (fs : List (Filter V))
  | any (fs : List (Filter V))
  | not (f : Filter V)
  | item (i : Item V)

def Item.map {V W : Type} (g : V → W) (i : Item V) : Item W :=
  { left := i.left, type := i.type, parts := i.parts.map g }

mutual

/-- The filter with other values. -/
def Filter.map {V W : Type} (g : V → W) : Filter V → Filter W
  | .all fs => .all (mapEach g fs)
  | .any fs => .any (mapEach g fs)
  | .not f => .not (f.map g)
  | .item i => .item (i.map g)

def mapEach {V W : Type} (g : V → W) : List (Filter V) → List (Filter W)
  | [] => []
  | f :: fs => f.map g :: mapEach g fs

end

mutual

/-- The values, from left to right. -/
def Filter.values {V : Type} : Filter V → List V
  | .all fs | .any fs => valuesEach fs
  | .not f => f.values
  | .item i => i.parts

def valuesEach {V : Type} : List (Filter V) → List V
  | [] => []
  | f :: fs => f.values ++ valuesEach fs

end

/-! ## Meaning -/

/-- `and` of three-valued truth, where `none` is undefined. -/
def bothTrue : Option Bool → Option Bool → Option Bool
  | some false, _ | _, some false => some false
  | some true, some true => some true
  | _, _ => none

mutual

/-- What a filter says of an entry, from what its items say of it. -/
def Filter.eval {V : Type} (assess : Item V → Option Bool) : Filter V → Option Bool
  | .all fs => evalAll assess fs
  | .any fs => evalAny assess fs
  | .not f => (f.eval assess).map (!·)
  | .item i => assess i

def evalAll {V : Type} (assess : Item V → Option Bool) : List (Filter V) → Option Bool
  | [] => some true
  | f :: fs => bothTrue (f.eval assess) (evalAll assess fs)

def evalAny {V : Type} (assess : Item V → Option Bool) : List (Filter V) → Option Bool
  | [] => some false
  | f :: fs => (bothTrue ((f.eval assess).map (!·)) ((evalAny assess fs).map (!·))).map (!·)

end

/-! ## String form -/

def chars (cs : List Char) : List Piece := cs.map .char

/-- What stands in front of the equality sign. -/
def FilterType.sign : FilterType → List Char
  | .equal => []
  | .approx => ['~']
  | .greaterOrEqual => ['>']
  | .lessOrEqual => ['<']
  | .extensible => [':']

def Item.render (i : Item (List Piece)) : List Piece :=
  chars (i.left ++ i.type.sign) ++ .char '=' :: [Piece.char '*'].intercalate i.parts

mutual

def Filter.render : Filter (List Piece) → List Piece
  | .all fs => .char '(' :: .char '&' :: (renderEach fs ++ [.char ')'])
  | .any fs => .char '(' :: .char '|' :: (renderEach fs ++ [.char ')'])
  | .not f => .char '(' :: .char '!' :: (f.render ++ [.char ')'])
  | .item i => .char '(' :: (i.render ++ [.char ')'])

def renderEach : List (Filter (List Piece)) → List Piece
  | [] => []
  | f :: fs => f.render ++ renderEach fs

end

/-! ### Attribute descriptions -/

def keyChar (c : Char) : Bool := c.isAlphanum || c = '-'

def isDescr (cs : List Char) : Bool := cs.head?.any Char.isAlpha && cs.all keyChar

/-- A number without zeros in front. -/
def isNumber (cs : List Char) : Bool :=
  cs ≠ [] && cs.all Char.isDigit && (cs.length = 1 || cs.head? ≠ some '0')

def isOid (cs : List Char) : Bool :=
  isDescr cs || 2 ≤ (cs.splitOn '.').length && (cs.splitOn '.').all isNumber

/-- An attribute description: a type, and options behind semicolons. -/
def isDescription (cs : List Char) : Bool :=
  match cs.splitOn ';' with
  | type :: options => isOid type && options.all fun o => o ≠ [] && o.all keyChar
  | [] => false

/-- What may stand in front of `:=`: an attribute, `:dn`, a matching rule; the attribute or
the rule may be missing. -/
def isExtensible (cs : List Char) : Bool :=
  match cs.splitOn ':' with
  | attr :: rest =>
    match if rest.head? = some ['d', 'n'] then rest.tail else rest with
    | [] => isDescription attr
    | [rule] => isOid rule && (attr = [] || isDescription attr)
    | _ => false
  | [] => false

/-! ### Values -/

/-- The characters that stand in a value by themselves. -/
def normal (c : Char) : Bool := !(['(', ')', '*', '\\', '\x00'].contains c)

def hexDigit? (c : Char) : Option UInt8 :=
  if c.isDigit then some (c.toNat - '0'.toNat).toUInt8
  else if 'a' ≤ c && c ≤ 'f' then some (c.toNat - 'a'.toNat + 10).toUInt8
  else if 'A' ≤ c && c ≤ 'F' then some (c.toNat - 'A'.toNat + 10).toUInt8
  else none

def encodeChar (c : Char) : List Octet := (String.utf8EncodeChar c).map .byte

/-- The characters of which values are written. -/
def valueChar (c : Char) : Bool := !(['(', ')', '*', '\x00'].contains c)

/-- The octets of a part of a value, `none` if a character is not allowed. -/
def readValue : List Piece → Option (List Octet)
  | [] => some []
  | .hole :: ps => (readValue ps).map (.hole :: ·)
  | .char c :: ps =>
    if c = '\\' then
      match ps with
      | .char high :: .char low :: ps =>
        match hexDigit? high, hexDigit? low with
        | some h, some l => (readValue ps).map (.byte (16 * h + l) :: ·)
        | _, _ => none
      | _ => none
    else if normal c then (readValue ps).map (encodeChar c ++ ·)
    else none

/-! ### The parser -/

def Item.wellFormed (i : Item (List Piece)) : Bool :=
  (match i.type with
    | .extensible => isExtensible i.left
    | _ => isDescription i.left) &&
  i.parts ≠ [] && (i.parts.length = 1 || i.type = .equal) &&
  i.parts.all fun part => (readValue part).isSome

/-- The comparison, and what stands in front of its sign. -/
def splitSign (front : List Char) : List Char × FilterType :=
  match front.getLast? with
  | some '~' => (front.dropLast, .approx)
  | some '>' => (front.dropLast, .greaterOrEqual)
  | some '<' => (front.dropLast, .lessOrEqual)
  | some ':' => (front.dropLast, .extensible)
  | _ => (front, .equal)

def Piece.char? : Piece → Option Char
  | .char c => some c
  | .hole => none

/-- What stands between two parentheses. -/
def parseItem (body : List Piece) : Option (Item (List Piece)) :=
  let front := body.takeWhile (· ≠ .char '=')
  match body.drop front.length with
  | [] => none
  | _ :: value =>
    let (left, type) := splitSign (front.filterMap Piece.char?)
    let i : Item (List Piece) := { left, type, parts := value.splitOn (.char '*') }
    if front.all (·.char?.isSome) && i.wellFormed then some i else none

def isParen (p : Piece) : Bool := p = .char '(' || p = .char ')'

/-- The closing parenthesis. -/
def close {F : Type} (f : F) : List Piece → Option (F × List Piece)
  | .char ')' :: rest => some (f, rest)
  | _ => none

mutual

/-- A filter from the beginning of the text, with what follows it. -/
def parseFilter : Nat → List Piece → Option (Filter (List Piece) × List Piece)
  | 0, _ => none
  | fuel + 1, .char '(' :: .char '&' :: rest =>
    match parseEach fuel rest with
    | some (f :: fs, rest) => close (.all (f :: fs)) rest
    | _ => none
  | fuel + 1, .char '(' :: .char '|' :: rest =>
    match parseEach fuel rest with
    | some (f :: fs, rest) => close (.any (f :: fs)) rest
    | _ => none
  | fuel + 1, .char '(' :: .char '!' :: rest =>
    match parseFilter fuel rest with
    | some (f, rest) => close (.not f) rest
    | none => none
  | _ + 1, .char '(' :: rest =>
    let body := rest.takeWhile (!isParen ·)
    match parseItem body with
    | some i => close (.item i) (rest.drop body.length)
    | none => none
  | _ + 1, _ => none

def parseEach : Nat → List Piece → Option (List (Filter (List Piece)) × List Piece)
  | 0, _ => none
  | fuel + 1, .char '(' :: rest =>
    match parseFilter fuel (.char '(' :: rest) with
    | some (f, rest) =>
      match parseEach fuel rest with
      | some (fs, rest) => some (f :: fs, rest)
      | none => none
    | none => none
  | _ + 1, rest => some ([], rest)

end

/-- The octets of a part that may stand in a value. -/
def octets (part : List Piece) : List Octet := (readValue part).getD []

/-- The string form of a filter that the whole text is. -/
def parseText (text : List Piece) : Option (Filter (List Piece)) :=
  match parseFilter (text.length + 1) text with
  | some (f, []) => some f
  | _ => none

/-- The filter that the whole text is. -/
def parse (text : List Piece) : Option (Filter (List Octet)) :=
  (parseText text).map (·.map octets)

/-! ## Characters of the parts -/

/-- What may stand in front of a comparison sign. -/
def leftChar (c : Char) : Bool := keyChar c || c = '.' || c = ';' || c = ':'

theorem mem_intercalate {α : Type} {sep x : α} : ∀ {parts : List (List α)},
    x ∈ [sep].intercalate parts → x = sep ∨ ∃ part ∈ parts, x ∈ part := by
  intro parts
  induction parts with
  | nil =>
    intro inside
    cases inside
  | cons part parts ih =>
    intro inside
    cases parts with
    | nil => exact .inr ⟨part, List.mem_cons_self, by simpa using inside⟩
    | cons part' parts =>
      rw [List.intercalate_cons_cons] at inside
      simp only [List.mem_append, List.mem_singleton] at inside
      rcases inside with (here | same) | later
      · exact .inr ⟨part, List.mem_cons_self, here⟩
      · exact .inl same
      · exact (ih later).imp_right fun ⟨p, at_p, has⟩ => ⟨p, List.mem_cons_of_mem _ at_p, has⟩

theorem mem_splitOn (sep : Char) {c : Char} {cs : List Char} (mem : c ∈ cs) :
    c = sep ∨ ∃ part ∈ cs.splitOn sep, c ∈ part := by
  have whole : [sep].intercalate (cs.splitOn sep) = cs := List.intercalate_splitOn sep
  rw [← whole] at mem
  exact mem_intercalate mem

theorem keyChar_of_digit {c : Char} (digit : c.isDigit = true) : keyChar c = true := by
  simp [keyChar, Char.isAlphanum, digit]

theorem isOid_chars {cs : List Char} (oid : isOid cs = true) {c : Char} (mem : c ∈ cs) :
    keyChar c = true ∨ c = '.' := by
  unfold isOid at oid
  rcases Bool.or_eq_true _ _ |>.mp oid with descr | numeric
  · exact .inl (List.all_eq_true.mp (Bool.and_eq_true _ _ |>.mp descr).2 c mem)
  · have numbers := (Bool.and_eq_true _ _ |>.mp numeric).2
    rcases mem_splitOn '.' mem with dot | ⟨part, at_part, inside⟩
    · exact .inr dot
    · have number := List.all_eq_true.mp numbers part at_part
      simp only [isNumber, Bool.and_eq_true] at number
      exact .inl (keyChar_of_digit (List.all_eq_true.mp number.1.2 c inside))

theorem isDescription_chars {cs : List Char} (description : isDescription cs = true) {c : Char}
    (mem : c ∈ cs) : leftChar c = true ∧ c ≠ ':' := by
  have kinds : keyChar c = true ∨ c = '.' ∨ c = ';' := by
    rcases mem_splitOn ';' mem with semicolon | ⟨part, at_part, inside⟩
    · exact .inr (.inr semicolon)
    · unfold isDescription at description
      split at description
      · next type options split =>
        rw [split] at at_part
        obtain ⟨oid, keys⟩ := Bool.and_eq_true _ _ |>.mp description
        rcases List.mem_cons.mp at_part with rfl | option
        · exact (isOid_chars oid inside).imp_right .inl
        · have key := List.all_eq_true.mp keys part option
          simp only [Bool.and_eq_true] at key
          exact .inl (List.all_eq_true.mp key.2 c inside)
      · cases description
  constructor
  · rcases kinds with key | dot | semicolon <;> simp [leftChar, *]
  · rintro rfl
    exact absurd kinds (by decide)

theorem isExtensible_chars {cs : List Char} (extensible : isExtensible cs = true) {c : Char}
    (mem : c ∈ cs) : leftChar c = true := by
  have oid_left : ∀ {part : List Char}, isOid part = true → c ∈ part → leftChar c = true := by
    intro part oid inside
    rcases isOid_chars oid inside with key | dot <;> simp [leftChar, *]
  rcases mem_splitOn ':' mem with colon | ⟨part, at_part, inside⟩
  · simp [leftChar, colon]
  · unfold isExtensible at extensible
    split at extensible
    · next attr rest split =>
      rw [split] at at_part
      have whose : part = attr ∨ part = ['d', 'n'] ∨
          part ∈ if rest.head? = some ['d', 'n'] then rest.tail else rest := by
        rcases List.mem_cons.mp at_part with first | later
        · exact .inl first
        · right
          split
          · next dn =>
            obtain ⟨tail, rfl⟩ := List.head?_eq_some_iff.mp dn
            exact List.mem_cons.mp later
          · exact .inr later
      generalize (if rest.head? = some ['d', 'n'] then rest.tail else rest) = rules at *
      have of_attr : isDescription attr = true → part = attr → leftChar c = true := by
        rintro description rfl
        exact (isDescription_chars description inside).1
      have of_dn : part = ['d', 'n'] → leftChar c = true := by
        rintro rfl
        simp only [List.mem_cons, List.not_mem_nil, or_false] at inside
        rcases inside with rfl | rfl <;> decide
      split at extensible
      · rcases whose with first | dn | none
        · exact of_attr extensible first
        · exact of_dn dn
        · cases none
      · next rule =>
        obtain ⟨oid, described⟩ := Bool.and_eq_true _ _ |>.mp extensible
        rcases whose with first | dn | named
        · rcases Bool.or_eq_true _ _ |>.mp described with empty | description
          · rw [first, of_decide_eq_true empty] at inside
            cases inside
          · exact of_attr description first
        · exact of_dn dn
        · rw [List.mem_singleton.mp named] at inside
          exact oid_left oid inside
      · cases extensible
    · cases extensible

theorem hexDigit_small {c : Char} {h : UInt8} (hex : hexDigit? c = some h) :
    c.toNat ≤ 127 ∧ valueChar c = true := by
  have small : c.toNat ≤ 127 := by
    unfold hexDigit? at hex
    split at hex
    · next digit =>
      have := (Char.isDigit_iff_toNat.mp digit).2
      have : '9'.toNat = 57 := rfl
      omega
    · split at hex
      · next lower =>
        have : c.toNat ≤ 'f'.toNat := of_decide_eq_true (Bool.and_eq_true _ _ |>.mp lower).2
        have : 'f'.toNat = 102 := rfl
        omega
      · split at hex
        · next upper =>
          have : c.toNat ≤ 'F'.toNat := of_decide_eq_true (Bool.and_eq_true _ _ |>.mp upper).2
          have : 'F'.toNat = 70 := rfl
          omega
        · cases hex
  refine ⟨small, ?_⟩
  by_contra special
  simp only [valueChar, Bool.not_eq_true, Bool.not_eq_false', List.contains_iff_mem,
    List.mem_cons, List.not_mem_nil, or_false] at special
  rcases special with rfl | rfl | rfl | rfl <;> cases hex

/-! ## Characters of the values -/

theorem valueChar_of_normal {c : Char} (ok : normal c = true) : valueChar c = true := by
  simp only [normal, valueChar, Bool.not_eq_true', List.contains_iff_mem, ← Bool.not_eq_true,
    List.mem_cons, not_or] at ok ⊢
  exact ⟨ok.1, ok.2.1, ok.2.2.1, ok.2.2.2.2.1, ok.2.2.2.2.2⟩

/-- The steps of reading a value. -/
inductive Reads : List Piece → List Octet → Prop
  | nil : Reads [] []
  | hole {ps : List Piece} {os : List Octet} (rest : Reads ps os) :
      Reads (.hole :: ps) (.hole :: os)
  | escape {high low : Char} {h l : UInt8} {ps : List Piece} {os : List Octet}
      (first : hexDigit? high = some h) (second : hexDigit? low = some l) (rest : Reads ps os) :
      Reads (.char '\\' :: .char high :: .char low :: ps) (.byte (16 * h + l) :: os)
  | char {c : Char} {ps : List Piece} {os : List Octet} (ok : normal c = true)
      (rest : Reads ps os) : Reads (.char c :: ps) (encodeChar c ++ os)

theorem reads_of_readValue {part : List Piece} : ∀ {os : List Octet}, readValue part = some os →
    Reads part os := by
  induction part using readValue.induct with
  | case1 =>
    intro os read
    cases read
    exact .nil
  | case2 ps ih =>
    intro os read
    rw [readValue] at read
    obtain ⟨os', rest, rfl⟩ := Option.map_eq_some_iff.mp read
    exact .hole (ih rest)
  | case3 high low ps h l second first ih =>
    intro os read
    simp only [readValue, if_pos, first, second] at read
    obtain ⟨os', rest, rfl⟩ := Option.map_eq_some_iff.mp read
    exact .escape first second (ih rest)
  | case4 high low ps none =>
    intro os read
    simp only [readValue, if_pos] at read
    cases read
  | case5 ps none =>
    intro os read
    simp only [readValue, if_pos] at read
    cases read
  | case6 c ps other ok ih =>
    intro os read
    unfold readValue at read
    simp only [if_neg other, if_pos ok] at read
    obtain ⟨os', rest, rfl⟩ := Option.map_eq_some_iff.mp read
    exact .char ok (ih rest)
  | case7 c ps other special =>
    intro os read
    unfold readValue at read
    simp only [if_neg other, if_neg special] at read
    cases read

theorem readValue_of_reads {part : List Piece} {os : List Octet} (reads : Reads part os) :
    readValue part = some os := by
  induction reads with
  | nil => rfl
  | hole _ ih => rw [readValue, ih, Option.map_some]
  | escape first second _ ih =>
    rw [readValue, if_pos rfl]
    simp only [first, second, ih, Option.map_some]
  | @char c _ _ ok _ ih =>
    have other : c ≠ '\\' := by
      rintro rfl
      cases ok
    unfold readValue
    simp only [if_neg other, if_pos ok, ih, Option.map_some]

/-- A value is written in value characters. -/
theorem Reads.valueChars {part : List Piece} {os : List Octet} (reads : Reads part os) {c : Char}
    (mem : .char c ∈ part) : valueChar c = true := by
  induction reads with
  | nil => cases mem
  | hole _ ih =>
    rcases List.mem_cons.mp mem with same | later
    · cases same
    · exact ih later
  | escape first second _ ih =>
    simp only [List.mem_cons, Piece.char.injEq] at mem
    rcases mem with rfl | rfl | rfl | later
    · decide
    · exact (hexDigit_small first).2
    · exact (hexDigit_small second).2
    · exact ih later
  | char ok _ ih =>
    rcases List.mem_cons.mp mem with same | later
    · cases same
      exact valueChar_of_normal ok
    · exact ih later

/-! ## Items -/

section
variable {i : Item (List Piece)}

theorem Item.wellFormed_left (wf : i.wellFormed = true) {c : Char} (mem : c ∈ i.left) :
    leftChar c = true ∧ (i.type ≠ .extensible → c ≠ ':') := by
  simp only [Item.wellFormed, Bool.and_eq_true] at wf
  have left := wf.1.1.1
  split at left
  · next extensible =>
    exact ⟨isExtensible_chars left mem, fun other => absurd extensible other⟩
  · exact ⟨(isDescription_chars left mem).1, fun _ => (isDescription_chars left mem).2⟩

theorem Item.wellFormed_parts (wf : i.wellFormed = true) : i.parts ≠ [] := by
  simp only [Item.wellFormed, Bool.and_eq_true] at wf
  exact of_decide_eq_true wf.1.1.2

theorem Item.wellFormed_reads (wf : i.wellFormed = true) {part : List Piece}
    (mem : part ∈ i.parts) : Reads part (octets part) := by
  simp only [Item.wellFormed, Bool.and_eq_true] at wf
  obtain ⟨os, read⟩ := Option.isSome_iff_exists.mp (List.all_eq_true.mp wf.2 part mem)
  rw [octets, read]
  exact reads_of_readValue read

theorem filterMap_chars (cs : List Char) : (chars cs).filterMap Piece.char? = cs := by
  induction cs with
  | nil => rfl
  | cons c cs ih => rw [chars, List.map_cons, List.filterMap_cons]; exact congrArg (c :: ·) ih

theorem chars_filterMap {ps : List Piece} (all : ps.all (·.char?.isSome) = true) :
    chars (ps.filterMap Piece.char?) = ps := by
  induction ps with
  | nil => rfl
  | cons p ps ih =>
    cases p with
    | char c =>
      have rest := ih (by simpa [Piece.char?] using all)
      rw [List.filterMap_cons]
      exact congrArg (Piece.char c :: ·) rest
    | hole => simp [Piece.char?] at all

theorem splitSign_spec (front : List Char) :
    (splitSign front).1 ++ (splitSign front).2.sign = front := by
  unfold splitSign
  split
  case h_5 => exact List.append_nil front
  all_goals
    next last => exact List.dropLast_append_getLast? _ last

/-- The sign is found again behind a left side that does not end with one. -/
theorem splitSign_sign (wf : i.wellFormed = true) :
    splitSign (i.left ++ i.type.sign) = (i.left, i.type) := by
  cases same : i.type with
  | equal =>
    rw [FilterType.sign, List.append_nil, splitSign]
    have not_sign : ∀ c, i.left.getLast? = some c → leftChar c = true ∧ c ≠ ':' := by
      intro c last
      obtain ⟨left, colon⟩ := Item.wellFormed_left wf (List.mem_of_getLast? last)
      exact ⟨left, colon (by rw [same]; decide)⟩
    split
    case h_5 => rfl
    case h_4 last => exact absurd rfl (not_sign _ last).2
    all_goals
      next last => exact absurd (not_sign _ last).1 (by decide)
  | _ => simp [splitSign, FilterType.sign]

theorem parseItem_render (wf : i.wellFormed = true) : parseItem i.render = some i := by
  have front : i.render.takeWhile (· ≠ .char '=') = chars (i.left ++ i.type.sign) := by
    rw [Item.render, List.takeWhile_append_of_pos, List.takeWhile_cons_of_neg (by simp),
      List.append_nil]
    intro p mem
    obtain ⟨c, at_c, rfl⟩ := List.mem_map.mp mem
    have other : c ≠ '=' := by
      rintro rfl
      rcases List.mem_append.mp at_c with left | sign
      · exact absurd (Item.wellFormed_left wf left).1 (by decide)
      · revert sign
        cases i.type <;> decide
    simpa using other
  have value : i.render.drop (chars (i.left ++ i.type.sign)).length =
      .char '=' :: [Piece.char '*'].intercalate i.parts := by
    rw [Item.render, List.drop_left]
  have split : ([Piece.char '*'].intercalate i.parts).splitOn (.char '*') = i.parts := by
    refine List.splitOn_intercalate _ (fun part mem star => ?_) (Item.wellFormed_parts wf)
    exact absurd ((Item.wellFormed_reads wf mem).valueChars star) (by decide)
  have all : (chars (i.left ++ i.type.sign)).all (·.char?.isSome) = true := by
    simp [chars, Piece.char?]
  unfold parseItem
  simp only [front, value, filterMap_chars, splitSign_sign wf, split, all, Bool.true_and,
    wf, if_true]

theorem parseItem_sound {body : List Piece} (parsed : parseItem body = some i) :
    body = i.render ∧ i.wellFormed = true := by
  unfold parseItem at parsed
  dsimp only at parsed
  have whole := List.takeWhile_append_dropWhile (p := (· ≠ Piece.char '=')) (l := body)
  generalize front_eq : body.takeWhile (· ≠ Piece.char '=') = front at parsed whole
  have behind : body.drop front.length = body.dropWhile (· ≠ Piece.char '=') := by
    conv_lhs => rw [← whole, List.drop_left]
  rw [behind] at parsed
  split at parsed
  · cases parsed
  · next p value rest =>
    have sign : p = .char '=' := by
      have stops := List.head?_dropWhile_not (· ≠ Piece.char '=') body
      rw [rest] at stops
      simpa using stops
    split at parsed
    · next ok =>
      obtain ⟨all, wf⟩ := Bool.and_eq_true _ _ |>.mp ok
      cases parsed
      refine ⟨?_, wf⟩
      rw [Item.render, splitSign_spec, chars_filterMap all, List.intercalate_splitOn,
        ← sign, ← rest, whole]
    · cases parsed

/-- Between the parentheses of an item there are no others. -/
theorem Item.render_no_paren (wf : i.wellFormed = true) {p : Piece} (mem : p ∈ i.render) :
    isParen p = false := by
  rw [Item.render] at mem
  rcases List.mem_append.mp mem with front | value
  · obtain ⟨c, at_c, rfl⟩ := List.mem_map.mp front
    rcases List.mem_append.mp at_c with left | sign
    · have ok := (Item.wellFormed_left wf left).1
      by_contra paren
      have either : c = '(' ∨ c = ')' := by simpa [isParen, or_iff_not_imp_left] using paren
      rcases either with rfl | rfl <;> exact absurd ok (by decide)
    · revert sign
      cases i.type <;> simp [FilterType.sign, isParen] <;> rintro rfl <;> decide
  · rcases List.mem_cons.mp value with rfl | inside
    · decide
    · rcases mem_intercalate inside with rfl | ⟨part, at_part, inside⟩
      · decide
      · have reads := Item.wellFormed_reads wf at_part
        by_contra paren
        have either : p = .char '(' ∨ p = .char ')' := by
          simpa [isParen, or_iff_not_imp_left] using paren
        rcases either with rfl | rfl <;> exact absurd (reads.valueChars inside) (by decide)

end

/-! ## Round trip -/

mutual

/-- The lists are not empty, and the items are well formed. -/
def Filter.WellFormed : Filter (List Piece) → Prop
  | .all fs | .any fs => fs ≠ [] ∧ WellFormedEach fs
  | .not f => f.WellFormed
  | .item i => i.wellFormed = true

def WellFormedEach : List (Filter (List Piece)) → Prop
  | [] => True
  | f :: fs => f.WellFormed ∧ WellFormedEach fs

end

mutual

def Filter.depth {V : Type} : Filter V → Nat
  | .all fs | .any fs => depthEach fs + 1
  | .not f => f.depth + 1
  | .item _ => 0

def depthEach {V : Type} : List (Filter V) → Nat
  | [] => 0
  | f :: fs => f.depth + depthEach fs + 1

end

mutual

theorem Filter.depth_lt (f : Filter (List Piece)) : f.depth < f.render.length := by
  match f with
  | .all fs | .any fs =>
    have := depthEach_le fs
    simp only [Filter.depth, Filter.render, List.length_cons, List.length_append]
    omega
  | .not f =>
    have := f.depth_lt
    simp only [Filter.depth, Filter.render, List.length_cons, List.length_append]
    omega
  | .item i => simp [Filter.depth, Filter.render]

theorem depthEach_le (fs : List (Filter (List Piece))) : depthEach fs ≤ (renderEach fs).length := by
  match fs with
  | [] => simp [depthEach]
  | f :: fs =>
    have := f.depth_lt
    have := depthEach_le fs
    simp only [depthEach, renderEach, List.length_append]
    omega

end

theorem Filter.render_head (f : Filter (List Piece)) : ∃ rest, f.render = .char '(' :: rest := by
  cases f <;> exact ⟨_, rfl⟩

theorem Item.render_head {i : Item (List Piece)} (wf : i.wellFormed = true) :
    ∃ c rest, i.render = .char c :: rest ∧ c ≠ '&' ∧ c ≠ '|' ∧ c ≠ '!' := by
  unfold Item.render
  cases left : i.left with
  | nil =>
    cases i.type
    all_goals exact ⟨_, _, rfl, by decide, by decide, by decide⟩
  | cons c cs =>
    have ok := (Item.wellFormed_left wf (left ▸ List.mem_cons_self : c ∈ i.left)).1
    refine ⟨c, _, rfl, ?_, ?_, ?_⟩
    all_goals
      rintro rfl
      exact absurd ok (by decide)

theorem parseItem_filter {fuel : Nat} {i : Item (List Piece)} (wf : i.wellFormed = true)
    (rest : List Piece) :
    parseFilter (fuel + 1) ((Filter.item i).render ++ rest) = some (.item i, rest) := by
  have body : (i.render ++ .char ')' :: rest).takeWhile (!isParen ·) = i.render := by
    rw [List.takeWhile_append_of_pos fun p mem => by rw [Item.render_no_paren wf mem]; rfl,
      List.takeWhile_cons_of_neg (by decide), List.append_nil]
  have behind : (i.render ++ .char ')' :: rest).drop i.render.length = .char ')' :: rest :=
    List.drop_left
  obtain ⟨c, inside, head, no_and, no_or, no_not⟩ := Item.render_head wf
  have shape : (Filter.item i).render ++ rest = .char '(' :: (i.render ++ .char ')' :: rest) := by
    simp [Filter.render]
  rw [shape]
  unfold parseFilter
  split
  · next h => cases h
  · next h =>
    rw [head] at h
    cases h
    exact absurd rfl no_and
  · next h =>
    rw [head] at h
    cases h
    exact absurd rfl no_or
  · next h =>
    rw [head] at h
    cases h
    exact absurd rfl no_not
  · next h =>
    cases h
    simp only [body, behind, parseItem_render wf, close]
  · next h _ _ other => exact absurd rfl (other _)

mutual

/-- A well-formed filter is found again in its string form. -/
theorem parseFilter_render (f : Filter (List Piece)) (fuel : Nat) (rest : List Piece)
    (wf : f.WellFormed) (enough : f.depth < fuel) :
    parseFilter fuel (f.render ++ rest) = some (f, rest) := by
  match f, fuel, enough with
  | .item i, fuel + 1, _ => exact parseItem_filter wf rest
  | .not f, fuel + 1, enough =>
    have inner := parseFilter_render f fuel (.char ')' :: rest) wf (by
      simp only [Filter.depth] at enough
      omega)
    simp only [Filter.render, List.cons_append, List.append_assoc, List.nil_append, parseFilter,
      inner, close]
  | .all [], _, _ | .any [], _, _ => exact absurd rfl wf.1
  | .all (f :: fs), fuel + 1, enough | .any (f :: fs), fuel + 1, enough =>
    have inner := parseEach_render (f :: fs) fuel (.char ')' :: rest) wf.2 (by
      simp only [Filter.depth] at enough
      omega) (by simp)
    simp only [Filter.render, List.cons_append, List.append_assoc, List.nil_append, parseFilter,
      inner, close]

theorem parseEach_render (fs : List (Filter (List Piece))) (fuel : Nat) (rest : List Piece)
    (wf : WellFormedEach fs) (enough : depthEach fs < fuel)
    (ends : rest.head? ≠ some (.char '(')) :
    parseEach fuel (renderEach fs ++ rest) = some (fs, rest) := by
  match fs, fuel, enough with
  | [], fuel + 1, _ =>
    rw [renderEach, List.nil_append]
    unfold parseEach
    split
    · next h => cases h
    · next h => exact absurd rfl ends
    · rfl
  | f :: fs, fuel + 1, enough =>
    simp only [depthEach] at enough
    have first := parseFilter_render f fuel (renderEach fs ++ rest) wf.1 (by omega)
    have later := parseEach_render fs fuel rest wf.2 (by omega) ends
    obtain ⟨inside, head⟩ := f.render_head
    rw [renderEach, List.append_assoc]
    rw [head, List.cons_append] at first ⊢
    simp only [parseEach, first, later]

end

theorem close_eq {F : Type} {f g : F} {text rest : List Piece}
    (closed : close f text = some (g, rest)) : text = .char ')' :: rest ∧ f = g := by
  unfold close at closed
  split at closed
  · cases closed
    exact ⟨rfl, rfl⟩
  · cases closed

/-- What is parsed is the string form of well-formed filters. -/
theorem parse_sound (fuel : Nat) : ∀ text : List Piece,
    (∀ f rest, parseFilter fuel text = some (f, rest) →
      text = f.render ++ rest ∧ f.WellFormed) ∧
    ∀ fs rest, parseEach fuel text = some (fs, rest) →
      text = renderEach fs ++ rest ∧ WellFormedEach fs := by
  induction fuel with
  | zero =>
    intro text
    refine ⟨fun _ _ parsed => ?_, fun _ _ parsed => ?_⟩
    · simp [parseFilter] at parsed
    · simp [parseEach] at parsed
  | succ fuel ih =>
    intro text
    constructor
    · intro f rest parsed
      unfold parseFilter at parsed
      split at parsed
      · cases parsed
      · obtain rfl := Nat.succ.inj ‹fuel + 1 = _›
        split at parsed
        · next g gs behind each =>
          obtain ⟨rfl, rfl⟩ := close_eq parsed
          obtain ⟨rfl, wf⟩ := (ih _).2 _ _ each
          exact ⟨by simp [Filter.render], List.cons_ne_nil g gs, wf⟩
        · cases parsed
      · obtain rfl := Nat.succ.inj ‹fuel + 1 = _›
        split at parsed
        · next g gs behind each =>
          obtain ⟨rfl, rfl⟩ := close_eq parsed
          obtain ⟨rfl, wf⟩ := (ih _).2 _ _ each
          exact ⟨by simp [Filter.render], List.cons_ne_nil g gs, wf⟩
        · cases parsed
      · obtain rfl := Nat.succ.inj ‹fuel + 1 = _›
        split at parsed
        · next g behind inner =>
          obtain ⟨rfl, rfl⟩ := close_eq parsed
          obtain ⟨rfl, wf⟩ := (ih _).1 _ _ inner
          exact ⟨by simp [Filter.render], wf⟩
        · cases parsed
      · next behind _ _ _ _ =>
        dsimp only at parsed
        split at parsed
        · next i item =>
          obtain ⟨closing, rfl⟩ := close_eq parsed
          obtain ⟨body, wf⟩ := parseItem_sound item
          have whole := List.take_append_drop (behind.takeWhile (!isParen ·)).length behind
          rw [closing, ← List.prefix_iff_eq_take.mp (List.takeWhile_prefix _), body] at whole
          exact ⟨by simp [Filter.render, ← whole], wf⟩
        · cases parsed
      · cases parsed
    · intro fs rest parsed
      unfold parseEach at parsed
      split at parsed
      · cases parsed
      · obtain rfl := Nat.succ.inj ‹fuel + 1 = _›
        split at parsed
        · next f between first =>
          split at parsed
          · next gs last later =>
            cases parsed
            obtain ⟨text_eq, wf⟩ := (ih _).1 _ _ first
            obtain ⟨rfl, wfs⟩ := (ih _).2 _ _ later
            exact ⟨by rw [text_eq, renderEach, List.append_assoc], wf, wfs⟩
          · cases parsed
        · cases parsed
      · cases parsed
        exact ⟨rfl, trivial⟩

/-- The whole text is the string form of a filter exactly where the parser finds it. -/
theorem parseText_iff {text : List Piece} {f : Filter (List Piece)} :
    parseText text = some f ↔ text = f.render ∧ f.WellFormed := by
  unfold parseText
  constructor
  · intro parsed
    split at parsed
    · next g whole =>
      cases parsed
      obtain ⟨same, wf⟩ := (parse_sound _ _).1 _ _ whole
      exact ⟨by rw [same, List.append_nil], wf⟩
    · cases parsed
  · rintro ⟨rfl, wf⟩
    have parsed := parseFilter_render f (f.render.length + 1) [] wf (by
      have := f.depth_lt
      omega)
    rw [List.append_nil] at parsed
    rw [parsed]

end LdapFilter
