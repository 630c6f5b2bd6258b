import LegionForge.Lib.LdapFilter
import LegionForge.Lib.Utf8

/-!
# Filling in a filter

The holes of a template are filled with a text as it comes, and the result is parsed again.
It is the filter the template was parsed as, with the text as it is in place of the holes,
exactly where the text has none of the five characters that mean something in a filter
(`parse_fill_iff`).

That the text must be free of them is a matter of counting: the parentheses and asterisks
of a filter are determined by its shape, and each backslash makes a value two octets
shorter than its string form.
-/

namespace LdapFilter

open Utf8

def fill (u : List Char) (text : List Piece) : List Piece :=
  text.flatMap fun
    | .char c => [.char c]
    | .hole => chars u

def fillOctets (u : List Char) (value : List Octet) : List Octet :=
  value.flatMap fun
    | .byte b => [.byte b]
    | .hole => u.flatMap encodeChar

section
variable {u : List Char}

/-! ## Without special characters -/

@[simp] theorem fill_nil : fill u [] = [] := rfl

@[simp] theorem fill_char (c : Char) (text : List Piece) :
    fill u (.char c :: text) = .char c :: fill u text := rfl

@[simp] theorem fill_hole (text : List Piece) :
    fill u (.hole :: text) = chars u ++ fill u text := rfl

@[simp] theorem fill_append (a b : List Piece) : fill u (a ++ b) = fill u a ++ fill u b :=
  List.flatMap_append

@[simp] theorem fill_chars (cs : List Char) : fill u (chars cs) = chars cs := by
  induction cs with
  | nil => rfl
  | cons c cs ih => exact congrArg (Piece.char c :: ·) ih

theorem fill_intercalate (parts : List (List Piece)) :
    fill u ([Piece.char '*'].intercalate parts) =
      [Piece.char '*'].intercalate (parts.map (fill u)) := by
  induction parts with
  | nil => rfl
  | cons part parts ih =>
    cases parts with
    | nil => simp
    | cons part' parts =>
      rw [List.map_cons, List.map_cons] at *
      rw [List.intercalate_cons_cons, List.intercalate_cons_cons, fill_append, fill_append, ih,
        fill_char, fill_nil]

theorem fill_item (i : Item (List Piece)) : fill u i.render = (i.map (fill u)).render := by
  rw [Item.render, fill_append, fill_chars, fill_char, fill_intercalate]
  rfl

mutual

theorem fill_render (f : Filter (List Piece)) : fill u f.render = (f.map (fill u)).render := by
  match f with
  | .all fs | .any fs =>
    simp only [Filter.render, Filter.map, fill_char, fill_append, fill_nil, fill_renderEach fs]
  | .not f =>
    simp only [Filter.render, Filter.map, fill_char, fill_append, fill_nil, fill_render f]
  | .item i =>
    simp only [Filter.render, Filter.map, fill_char, fill_append, fill_nil, fill_item]

theorem fill_renderEach (fs : List (Filter (List Piece))) :
    fill u (renderEach fs) = renderEach (mapEach (fill u) fs) := by
  match fs with
  | [] => rfl
  | f :: fs => rw [renderEach, fill_append, fill_render f, fill_renderEach fs, mapEach, renderEach]

end

theorem Reads.append {a b : List Piece} {x y : List Octet} (first : Reads a x)
    (second : Reads b y) : Reads (a ++ b) (x ++ y) := by
  induction first with
  | nil => exact second
  | hole _ ih => exact .hole ih
  | escape high low _ ih => exact .escape high low ih
  | char ok _ ih => rw [List.append_assoc]; exact .char ok ih

theorem reads_chars (plain : ∀ c ∈ u, normal c = true) :
    Reads (chars u) (u.flatMap encodeChar) := by
  induction u with
  | nil => exact .nil
  | cons c u ih =>
    exact .char (plain c List.mem_cons_self) (ih fun c mem => plain c (List.mem_cons_of_mem _ mem))

@[simp] theorem fillOctets_append (a b : List Octet) :
    fillOctets u (a ++ b) = fillOctets u a ++ fillOctets u b :=
  List.flatMap_append

theorem fillOctets_encodeChar (c : Char) : fillOctets u (encodeChar c) = encodeChar c := by
  unfold encodeChar fillOctets
  rw [List.flatMap_map]
  exact List.map_eq_flatMap.symm

/-- Filling a value is filling what is read of it. -/
theorem Reads.fill {part : List Piece} {os : List Octet} (reads : Reads part os)
    (plain : ∀ c ∈ u, normal c = true) : Reads (fill u part) (fillOctets u os) := by
  induction reads with
  | nil => exact .nil
  | hole _ ih => exact (reads_chars plain).append ih
  | escape high low _ ih => exact .escape high low ih
  | char ok _ ih =>
    rw [fill_char, fillOctets_append, fillOctets_encodeChar]
    exact .char ok ih

theorem octets_of_reads {part : List Piece} {os : List Octet} (reads : Reads part os) :
    octets part = os := by
  rw [octets, readValue_of_reads reads, Option.getD_some]

theorem octets_fill {part : List Piece} {os : List Octet} (reads : Reads part os)
    (plain : ∀ c ∈ u, normal c = true) : octets (fill u part) = fillOctets u (octets part) := by
  rw [octets_of_reads (reads.fill plain), octets_of_reads reads]

/-- A filled item is well formed. -/
theorem wellFormed_fill {i : Item (List Piece)} (wf : i.wellFormed = true)
    (plain : ∀ c ∈ u, normal c = true) : (i.map (fill u)).wellFormed = true := by
  have reads : (i.map (fill u)).parts.all (fun part => (readValue part).isSome) = true := by
    rw [List.all_eq_true]
    intro part mem
    obtain ⟨part, at_part, rfl⟩ := List.mem_map.mp mem
    rw [readValue_of_reads ((Item.wellFormed_reads wf at_part).fill plain)]
    rfl
  simp only [Item.wellFormed, Bool.and_eq_true] at wf ⊢
  refine ⟨⟨⟨wf.1.1.1, ?_⟩, ?_⟩, reads⟩
  · simpa [Item.map] using wf.1.1.2
  · rw [Item.map, List.length_map]
    exact wf.1.2

theorem Item.map_octets_fill {i : Item (List Piece)} (wf : i.wellFormed = true)
    (plain : ∀ c ∈ u, normal c = true) :
    (i.map (fill u)).map octets = (i.map octets).map (fillOctets u) := by
  simp only [Item.map, List.map_map, Item.mk.injEq, true_and]
  exact List.map_congr_left fun part mem =>
    octets_fill (Item.wellFormed_reads wf mem) plain

theorem mapEach_eq_nil {V W : Type} {g : V → W} {fs : List (Filter V)}
    (none : mapEach g fs = []) : fs = [] := by
  cases fs with
  | nil => rfl
  | cons f fs => cases none

mutual

/-- A filled filter is well formed, and what is read of it is what was read, filled. -/
theorem wellFormed_map_fill (f : Filter (List Piece)) (wf : f.WellFormed)
    (plain : ∀ c ∈ u, normal c = true) : (f.map (fill u)).WellFormed ∧
      (f.map (fill u)).map octets = (f.map octets).map (fillOctets u) := by
  match f with
  | .all fs | .any fs =>
    obtain ⟨each, same⟩ := wellFormed_mapEach_fill fs wf.2 plain
    exact ⟨⟨fun none => wf.1 (mapEach_eq_nil none), each⟩, by simp only [Filter.map, same]⟩
  | .not f =>
    obtain ⟨inner, same⟩ := wellFormed_map_fill f wf plain
    exact ⟨inner, by simp only [Filter.map, same]⟩
  | .item i =>
    exact ⟨wellFormed_fill wf plain, congrArg Filter.item (Item.map_octets_fill wf plain)⟩

theorem wellFormed_mapEach_fill (fs : List (Filter (List Piece))) (wf : WellFormedEach fs)
    (plain : ∀ c ∈ u, normal c = true) : WellFormedEach (mapEach (fill u) fs) ∧
      mapEach octets (mapEach (fill u) fs) = mapEach (fillOctets u) (mapEach octets fs) := by
  match fs with
  | [] => exact ⟨trivial, rfl⟩
  | f :: fs =>
    obtain ⟨first, same⟩ := wellFormed_map_fill f wf.1 plain
    obtain ⟨later, sames⟩ := wellFormed_mapEach_fill fs wf.2 plain
    exact ⟨⟨first, later⟩, by simp only [mapEach, same, sames]⟩

end

/-- A text without special characters fills the template as intended. -/
theorem parse_fill {text : List Piece} {f : Filter (List Octet)} (parsed : parse text = some f)
    (plain : ∀ c ∈ u, normal c = true) : parse (fill u text) = some (f.map (fillOctets u)) := by
  obtain ⟨g, found, rfl⟩ := Option.map_eq_some_iff.mp parsed
  obtain ⟨rfl, wf⟩ := parseText_iff.mp found
  obtain ⟨filled, same⟩ := wellFormed_map_fill g wf plain
  rw [parse, parseText_iff.mpr ⟨fill_render g, filled⟩, Option.map_some, same]

/-! ## Counting -/

/-- What the pieces weigh together. -/
def weigh (w : Piece → Nat) (text : List Piece) : Nat := (text.map w).sum

variable {w : Piece → Nat}

@[simp] theorem weigh_nil : weigh w [] = 0 := rfl

@[simp] theorem weigh_cons (p : Piece) (text : List Piece) :
    weigh w (p :: text) = w p + weigh w text := by
  simp [weigh]

@[simp] theorem weigh_append (a b : List Piece) : weigh w (a ++ b) = weigh w a + weigh w b := by
  simp [weigh]

theorem weigh_eq_zero {text : List Piece} : weigh w text = 0 ↔ ∀ p ∈ text, w p = 0 := by
  induction text with
  | nil => simp
  | cons p text ih =>
    rw [weigh_cons, List.forall_mem_cons, ← ih]
    omega

/-- Each hole filled adds the text. -/
theorem weigh_fill (hole : w .hole = 0) (text : List Piece) :
    weigh w (fill u text) = weigh w text + text.count .hole * weigh w (chars u) := by
  induction text with
  | nil => simp
  | cons p text ih =>
    cases p with
    | char c =>
      rw [fill_char, weigh_cons, weigh_cons, ih, List.count_cons_of_ne (by simp)]
      omega
    | hole =>
      rw [fill_hole, weigh_append, weigh_cons, ih, hole, List.count_cons_self, Nat.add_mul]
      omega

/-- The shape of a filter: its string form without the values. -/
def Filter.shape {V : Type} (f : Filter V) : Filter (List Piece) := f.map fun _ => []

theorem weigh_intercalate (parts : List (List Piece)) :
    weigh w ([Piece.char '*'].intercalate parts) =
      weigh w ([Piece.char '*'].intercalate (parts.map fun _ => [])) +
        (parts.map (weigh w)).sum := by
  induction parts with
  | nil => rfl
  | cons part parts ih =>
    cases parts with
    | nil => simp
    | cons part' parts =>
      rw [List.map_cons, List.map_cons] at *
      rw [List.intercalate_cons_cons, List.intercalate_cons_cons, weigh_append, weigh_append, ih,
        weigh_append, weigh_append, weigh_nil]
      simp only [List.map_cons, List.sum_cons]
      omega

mutual

theorem map_map {U V W : Type} (g : U → V) (h : V → W) (f : Filter U) :
    (f.map g).map h = f.map (h ∘ g) := by
  match f with
  | .all fs | .any fs => simp only [Filter.map, mapEach_mapEach g h fs]
  | .not f => simp only [Filter.map, map_map g h f]
  | .item i => simp only [Filter.map, Item.map, List.map_map]

theorem mapEach_mapEach {U V W : Type} (g : U → V) (h : V → W) (fs : List (Filter U)) :
    mapEach h (mapEach g fs) = mapEach (h ∘ g) fs := by
  match fs with
  | [] => rfl
  | f :: fs => simp only [mapEach, map_map g h f, mapEach_mapEach g h fs]

end

mutual

theorem values_map {V W : Type} (g : V → W) (f : Filter V) : (f.map g).values = f.values.map g := by
  match f with
  | .all fs | .any fs => exact valuesEach_map g fs
  | .not f => exact values_map g f
  | .item i => rfl

theorem valuesEach_map {V W : Type} (g : V → W) (fs : List (Filter V)) :
    valuesEach (mapEach g fs) = (valuesEach fs).map g := by
  match fs with
  | [] => rfl
  | f :: fs => simp only [mapEach, valuesEach, List.map_append, values_map g f, valuesEach_map g fs]

end

mutual

/-- A filter weighs as much as its shape and its values. -/
theorem weigh_render (f : Filter (List Piece)) :
    weigh w f.render = weigh w f.shape.render + (f.values.map (weigh w)).sum := by
  match f with
  | .all fs | .any fs =>
    have each := weigh_renderEach fs
    simp only [Filter.render, Filter.shape, Filter.map, Filter.values, weigh_cons,
      weigh_append] at *
    omega
  | .not f =>
    have inner := weigh_render f
    simp only [Filter.render, Filter.shape, Filter.map, Filter.values, weigh_cons,
      weigh_append] at *
    omega
  | .item i =>
    have parts := weigh_intercalate (w := w) i.parts
    simp only [Filter.render, Filter.shape, Filter.map, Item.map, Item.render, Filter.values,
      weigh_cons, weigh_append] at *
    omega

theorem weigh_renderEach (fs : List (Filter (List Piece))) :
    weigh w (renderEach fs) =
      weigh w (renderEach (mapEach (fun _ => []) fs)) + ((valuesEach fs).map (weigh w)).sum := by
  match fs with
  | [] => rfl
  | f :: fs =>
    have first := weigh_render f
    have later := weigh_renderEach fs
    simp only [renderEach, mapEach, valuesEach, Filter.shape, weigh_append, List.map_append,
      List.sum_append] at *
    omega

end

/-! ### Special characters -/

/-- Counts a character. -/
def isChar (c : Char) : Piece → Nat
  | .char x => if x = c then 1 else 0
  | .hole => 0

/-- The length of the string form in octets. -/
def byteSize : Piece → Nat
  | .char c => c.utf8Size
  | .hole => 0

def isHole : Piece → Nat
  | .char _ => 0
  | .hole => 1

/-- The octets read, without the holes. -/
def byteCount (value : List Octet) : Nat := (value.map fun
  | .byte _ => 1
  | .hole => 0).sum

theorem weigh_isHole (text : List Piece) : weigh isHole text = text.count .hole := by
  induction text with
  | nil => rfl
  | cons p text ih =>
    cases p with
    | char c => rw [weigh_cons, ih, List.count_cons_of_ne (by simp), isHole, Nat.zero_add]
    | hole => rw [weigh_cons, ih, List.count_cons_self, isHole, Nat.add_comm]

theorem weigh_isChar_chars {c : Char} (mem : c ∈ u) : weigh (isChar c) (chars u) ≠ 0 := by
  intro none
  have := weigh_eq_zero.mp none (.char c) (List.mem_map_of_mem mem)
  simp [isChar] at this

mutual

theorem reads_values (f : Filter (List Piece)) (wf : f.WellFormed) :
    ∀ part ∈ f.values, Reads part (octets part) := by
  match f with
  | .all fs | .any fs => exact reads_valuesEach fs wf.2
  | .not f => exact reads_values f wf
  | .item i => exact fun _ mem => Item.wellFormed_reads wf mem

theorem reads_valuesEach (fs : List (Filter (List Piece))) (wf : WellFormedEach fs) :
    ∀ part ∈ valuesEach fs, Reads part (octets part) := by
  match fs with
  | [] => exact fun _ mem => by cases mem
  | f :: fs =>
    intro part mem
    rcases List.mem_append.mp mem with first | later
    · exact reads_values f wf.1 part first
    · exact reads_valuesEach fs wf.2 part later

end

/-- A character that no value is written with occurs as often as in the shape. -/
theorem weigh_special {c : Char} (special : valueChar c = false) {f : Filter (List Piece)}
    (wf : f.WellFormed) : weigh (isChar c) f.render = weigh (isChar c) f.shape.render := by
  have none : (f.values.map (weigh (isChar c))).sum = 0 := by
    rw [List.sum_eq_zero_iff_forall_eq_nat]
    intro n mem
    obtain ⟨part, at_part, rfl⟩ := List.mem_map.mp mem
    refine weigh_eq_zero.mpr fun p inside => ?_
    cases p with
    | hole => rfl
    | char x =>
      have other : x ≠ c := by
        rintro rfl
        rw [(reads_values f wf part at_part).valueChars inside] at special
        cases special
      exact if_neg other
  rw [weigh_render, none, Nat.add_zero]

/-! ### Backslashes -/

@[simp] theorem byteCount_append (a b : List Octet) :
    byteCount (a ++ b) = byteCount a + byteCount b := by
  simp [byteCount]

@[simp] theorem byteCount_encodeChar (c : Char) : byteCount (encodeChar c) = c.utf8Size := by
  rw [← String.length_utf8EncodeChar]
  unfold byteCount encodeChar
  induction String.utf8EncodeChar c with
  | nil => rfl
  | cons b bs ih => simp only [List.map_cons, List.sum_cons, List.length_cons] at *; omega

theorem byteCount_text (u : List Char) : byteCount (u.flatMap encodeChar) = size u := by
  induction u with
  | nil => rfl
  | cons c u ih => rw [List.flatMap_cons, byteCount_append, ih, byteCount_encodeChar, size_cons]

theorem weigh_byteSize_chars (u : List Char) : weigh byteSize (chars u) = size u := by
  induction u with
  | nil => rfl
  | cons c u ih => exact congrArg (c.utf8Size + ·) ih

theorem hexDigit_weigh {c : Char} {h : UInt8} (hex : hexDigit? c = some h) :
    byteSize (.char c) = 1 ∧ isChar '\\' (.char c) = 0 := by
  refine ⟨Char.utf8Size_eq_one_iff.mpr (hexDigit_small hex).1, if_neg ?_⟩
  rintro rfl
  cases hex

/-- A value is as long as its string form, but for two octets at each backslash. -/
theorem byteCount_reads {part : List Piece} {os : List Octet} (reads : Reads part os) :
    weigh byteSize part = byteCount os + 2 * weigh (isChar '\\') part := by
  induction reads with
  | nil => rfl
  | @hole ps os _ ih =>
    have count : byteCount (.hole :: os) = byteCount os := by simp [byteCount]
    rw [weigh_cons, weigh_cons, ih, count]
    show 0 + _ = _ + 2 * (0 + _)
    omega
  | @escape high low h l ps os first second _ ih =>
    have count : byteCount (.byte (16 * h + l) :: os) = 1 + byteCount os := by simp [byteCount]
    simp only [weigh_cons, ih, count, hexDigit_weigh first, hexDigit_weigh second]
    show 1 + _ = _ + 2 * (1 + _)
    omega
  | @char c ps os ok _ ih =>
    have other : c ≠ '\\' := by
      rintro rfl
      cases ok
    have none : isChar '\\' (.char c) = 0 := if_neg other
    rw [weigh_cons, weigh_cons, ih, byteCount_append, byteCount_encodeChar, none]
    show c.utf8Size + _ = _
    omega

theorem byteCount_fillOctets {part : List Piece} {os : List Octet} (reads : Reads part os) :
    byteCount (fillOctets u os) = byteCount os + weigh isHole part * size u := by
  induction reads with
  | nil => simp [fillOctets, byteCount]
  | @hole ps os _ ih =>
    have filled : byteCount (fillOctets u (.hole :: os)) =
        size u + byteCount (fillOctets u os) := by
      rw [← byteCount_text, ← byteCount_append]
      rfl
    have count : byteCount (.hole :: os) = byteCount os := by simp [byteCount]
    have one : isHole .hole = 1 := rfl
    rw [filled, ih, count, weigh_cons, one, Nat.add_mul]
    omega
  | @escape high low h l ps os _ _ _ ih =>
    have filled : byteCount (fillOctets u (.byte (16 * h + l) :: os)) =
        1 + byteCount (fillOctets u os) := by simp [fillOctets, byteCount]
    have count : byteCount (.byte (16 * h + l) :: os) = 1 + byteCount os := by simp [byteCount]
    rw [filled, ih, count]
    show _ = _ + (0 + (0 + (0 + weigh isHole ps))) * size u
    rw [Nat.zero_add, Nat.zero_add, Nat.zero_add]
    omega
  | @char c ps os _ _ ih =>
    have none : isHole (.char c) = 0 := rfl
    rw [fillOctets_append, fillOctets_encodeChar, byteCount_append, byteCount_append,
      ih, weigh_cons, none, Nat.zero_add]
    omega

theorem sum_byteSize {parts : List (List Piece)}
    (reads : ∀ part ∈ parts, Reads part (octets part)) :
    (parts.map (weigh byteSize)).sum =
      ((parts.map octets).map byteCount).sum + 2 * (parts.map (weigh (isChar '\\'))).sum := by
  induction parts with
  | nil => rfl
  | cons part parts ih =>
    have here := byteCount_reads (reads part List.mem_cons_self)
    have there := ih fun p mem => reads p (List.mem_cons_of_mem _ mem)
    simp only [List.map_cons, List.sum_cons]
    omega

theorem sum_fillOctets {parts : List (List Piece)}
    (reads : ∀ part ∈ parts, Reads part (octets part)) :
    (((parts.map octets).map (fillOctets u)).map byteCount).sum =
      ((parts.map octets).map byteCount).sum + (parts.map (weigh isHole)).sum * size u := by
  induction parts with
  | nil => simp
  | cons part parts ih =>
    have here := byteCount_fillOctets (u := u) (reads part List.mem_cons_self)
    have there := ih fun p mem => reads p (List.mem_cons_of_mem _ mem)
    simp only [List.map_cons, List.sum_cons, Nat.add_mul]
    omega

/-! ## Filling holes -/

/-- The shape has no holes to fill. -/
theorem shape_holes (f : Filter (List Piece)) : f.shape.render.count .hole * size u = 0 := by
  have same : fill u f.shape.render = f.shape.render := by
    rw [fill_render, Filter.shape, map_map]
    rfl
  have weights := weigh_fill (u := u) (w := byteSize) rfl f.shape.render
  rw [same, weigh_byteSize_chars] at weights
  omega

theorem normal_of_parse_fill {text : List Piece} {f : Filter (List Octet)}
    (parsed : parse text = some f) (holed : .hole ∈ text)
    (filled : parse (fill u text) = some (f.map (fillOctets u))) : ∀ c ∈ u, normal c = true := by
  obtain ⟨g, found, rfl⟩ := Option.map_eq_some_iff.mp parsed
  obtain ⟨g', found', same⟩ := Option.map_eq_some_iff.mp filled
  obtain ⟨rfl, wf⟩ := parseText_iff.mp found
  obtain ⟨render, wf'⟩ := parseText_iff.mp found'
  have shape : g'.shape = g.shape := by
    have shapes := congrArg (Filter.map fun _ => ([] : List Piece)) same
    simp only [map_map] at shapes
    exact shapes
  have values : g'.values.map octets = (g.values.map octets).map (fillOctets u) := by
    rw [← values_map, same, values_map, values_map]
  have holes : 0 < g.render.count .hole := List.count_pos_iff.mpr holed
  -- a character that the shape counts
  have counted : ∀ c, valueChar c = false → c ∉ u := by
    intro c special mem
    have weights := weigh_fill (u := u) (w := isChar c) rfl g.render
    rw [render, weigh_special special wf', weigh_special special wf, shape] at weights
    have some := Nat.mul_pos holes (Nat.pos_of_ne_zero (weigh_isChar_chars mem))
    omega
  have backslash : '\\' ∉ u := by
    intro mem
    have some := Nat.mul_pos holes (Nat.pos_of_ne_zero (weigh_isChar_chars mem))
    have backslashes := weigh_fill (u := u) (w := isChar '\\') rfl g.render
    have sizes := weigh_fill (u := u) (w := byteSize) rfl g.render
    rw [render, weigh_render g', weigh_render g, shape] at backslashes sizes
    rw [weigh_byteSize_chars, sum_byteSize (reads_values g' wf'), sum_byteSize (reads_values g wf),
      values, sum_fillOctets (reads_values g wf)] at sizes
    -- every hole is in a value
    have inside : g.render.count .hole * size u = (g.values.map (weigh isHole)).sum * size u := by
      rw [← weigh_isHole, weigh_render, weigh_isHole, Nat.add_mul, shape_holes, Nat.zero_add]
    omega
  intro c mem
  by_contra special
  simp only [normal, Bool.not_eq_true, Bool.not_eq_false', List.contains_iff_mem, List.mem_cons,
    List.not_mem_nil, or_false] at special
  rcases special with rfl | rfl | rfl | rfl | rfl
  · exact counted _ (by decide) mem
  · exact counted _ (by decide) mem
  · exact counted _ (by decide) mem
  · exact backslash mem
  · exact counted _ (by decide) mem

/-- The holes are filled as intended exactly by texts without special characters. -/
theorem parse_fill_iff {text : List Piece} {f : Filter (List Octet)} (parsed : parse text = some f)
    (holed : .hole ∈ text) :
    parse (fill u text) = some (f.map (fillOctets u)) ↔ ∀ c ∈ u, normal c = true :=
  ⟨normal_of_parse_fill parsed holed, parse_fill parsed⟩

end

end LdapFilter
