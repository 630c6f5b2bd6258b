import Mathlib.Data.List.Chain
import Mathlib.Data.List.TakeWhile
import Mathlib.Tactic.Common

/-!
# Chunks of a text

`chunk_text` cuts a text into units, paragraphs or as many sentences of a long paragraph as
fit, and packs the units into chunks that begin with the end of the chunk before. The
length it goes by counts a separator behind every unit, the join none behind the last, and
the tail of a chunk goes into it only once, so the chunks are not longer than it says
(`Packed.Fits`).

`chunk_text_complete` puts together what comes of the text, of its units, of the order and
of the lengths.
-/

namespace LegionForge.Gateway

/-! ## `chunk_text` -/

section
variable (space : Char → Bool)

def stripChars (text : List Char) : List Char :=
  ((text.dropWhile space).reverse.dropWhile space).reverse

/-- `re.split(r"\n{2,}", text)`: how many newlines were just read, and what the paragraph
holds so far, last character first. -/
def splitParagraphs : Nat → List Char → List Char → List (List Char)
  | newlines, cur, [] =>
    if 2 ≤ newlines then [cur.reverse, []]
    else [(List.replicate newlines '\n' ++ cur).reverse]
  | newlines, cur, c :: rest =>
    if c = '\n' then splitParagraphs (newlines + 1) cur rest
    else if 2 ≤ newlines then cur.reverse :: splitParagraphs 0 [c] rest
    else splitParagraphs 0 (c :: (List.replicate newlines '\n' ++ cur)) rest

def endsSentence (c : Char) : Bool := c = '.' || c = '!' || c = '?'

/-- `re.split(r"(?<=[.!?])\s+", para)`: whether a separator is being read, and what the
sentence holds so far, last character first. -/
def splitSentences : Bool → List Char → List Char → List (List Char)
  | _, cur, [] => [cur.reverse]
  | skipping, cur, c :: rest =>
    if space c && skipping then splitSentences true cur rest
    else if space c && cur.head?.any endsSentence then
      cur.reverse :: splitSentences true [] rest
    else splitSentences false (c :: cur) rest

/-- The sentences of a long paragraph, as many in a unit as it has room for. -/
def packSentences (chunkChars : Nat) : List Char → List (List Char) → List (List Char)
  | current, [] => if current = [] then [] else [current]
  | current, sent :: rest =>
    if current.length + sent.length + 1 ≤ chunkChars then
      let current := if current = [] then sent else stripChars space (current ++ ' ' :: sent)
      packSentences chunkChars current rest
    else if current = [] then packSentences chunkChars sent rest
    else current :: packSentences chunkChars sent rest

def chunkUnits (chunkChars : Nat) (text : List Char) : List (List Char) :=
  let paragraphs := ((splitParagraphs 0 [] text).map (stripChars space)).filter (· ≠ [])
  paragraphs.flatMap fun para =>
    if para.length ≤ chunkChars then [para]
    else packSentences space chunkChars [] (splitSentences space false [] para)

/-- `_MIN_CHUNK_CHARS` -/
def minChunkChars : Nat := 8

/-- `"\n\n".join(...)`, kept where it is long enough -/
def joinUnits (units : List (List Char)) : List Char := List.intercalate ['\n', '\n'] units

def keptChunk (chunk : List Char) : List (List Char) :=
  if minChunkChars ≤ chunk.length then [chunk] else []

/-- The units packed into chunks, each begun with the end of the one before. -/
def packUnits (chunkChars overlapChars : Nat) :
    List (List Char) → Nat → List (List Char) → List (List Char)
  | current, _, [] => if current = [] then [] else keptChunk (joinUnits current)
  | current, currentLen, unit :: rest =>
    if chunkChars < currentLen + unit.length + 1 ∧ current ≠ [] then
      let chunk := joinUnits current
      let overlapText := chunk.drop (chunk.length - overlapChars)
      let next := if stripChars space overlapText = [] then [] else [overlapText]
      keptChunk chunk ++ packUnits chunkChars overlapChars (next ++ [unit])
        (overlapText.length + unit.length + 2) rest
    else
      packUnits chunkChars overlapChars (current ++ [unit])
        (currentLen + unit.length + 2) rest

/-- `chunk_text`, at four characters a token -/
def chunkText (text : String) (chunkSize overlap : Nat) : List String :=
  if stripChars space text.toList = [] then []
  else (packUnits space (chunkSize * 4) (overlap * 4) [] 0
    (chunkUnits space (chunkSize * 4) text.toList)).map String.ofList

end

/-! ## Characters -/

section
variable (space : Char → Bool)

/-- The characters that are no white space. -/
def solid (text : List Char) : List Char := text.filter fun c => !space c

variable {space}

@[simp] theorem solid_nil : solid space [] = [] := rfl

@[simp] theorem solid_append (a b : List Char) :
    solid space (a ++ b) = solid space a ++ solid space b := List.filter_append ..

theorem solid_cons_space {c : Char} (blank : space c = true) (text : List Char) :
    solid space (c :: text) = solid space text := List.filter_cons_of_neg (by simp [blank])

theorem solid_eq_nil_iff {text : List Char} :
    solid space text = [] ↔ ∀ c ∈ text, space c = true := by
  simp [solid, List.filter_eq_nil_iff]

theorem solid_dropWhile (text : List Char) :
    solid space (text.dropWhile space) = solid space text := by
  induction text with
  | nil => rfl
  | cons c text ih =>
    cases blank : space c with
    | true => rw [List.dropWhile_cons_of_pos blank, ih, solid_cons_space blank]
    | false => rw [List.dropWhile_cons_of_neg (by simp [blank])]

@[simp] theorem solid_reverse (text : List Char) :
    solid space text.reverse = (solid space text).reverse := List.filter_reverse ..

theorem solid_cons (c : Char) (text : List Char) :
    solid space (c :: text) = solid space [c] ++ solid space text := solid_append [c] text

theorem reverse_solid_cons (c : Char) (text : List Char) :
    (solid space (c :: text)).reverse = (solid space text).reverse ++ solid space [c] := by
  rw [solid_cons, List.reverse_append, ← solid_reverse [c]]
  rfl

/-- Stripping takes white space only. -/
@[simp] theorem solid_stripChars (text : List Char) :
    solid space (stripChars space text) = solid space text := by
  simp [stripChars, solid_dropWhile]

theorem stripChars_eq_nil_iff {text : List Char} :
    stripChars space text = [] ↔ ∀ c ∈ text, space c = true := by
  rw [← solid_eq_nil_iff]
  refine ⟨fun empty => by rw [← solid_stripChars, empty, solid_nil], fun blank => ?_⟩
  have all : text.dropWhile space = [] := by
    rw [List.dropWhile_eq_nil_iff]
    exact solid_eq_nil_iff.mp blank
  simp [stripChars, all]

theorem solid_newlines (newline : space '\n' = true) (n : Nat) :
    solid space (List.replicate n '\n') = [] :=
  solid_eq_nil_iff.mpr fun c mem => by rw [List.eq_of_mem_replicate mem, newline]

/-! ## Units -/

theorem solid_splitParagraphs (newline : space '\n' = true) (text : List Char) :
    ∀ (newlines : Nat) (cur : List Char), solid space (splitParagraphs newlines cur text).flatten =
      (solid space cur).reverse ++ solid space text := by
  induction text with
  | nil =>
    intro newlines cur
    rw [splitParagraphs]
    split <;> simp [solid_newlines newline]
  | cons c text ih =>
    intro newlines cur
    rw [splitParagraphs]
    split
    · next isNewline => rw [ih, isNewline, solid_cons_space newline]
    · split
      · rw [List.flatten_cons, solid_append, ih, reverse_solid_cons, solid_cons c text,
          solid_reverse]
        rfl
      · rw [ih, reverse_solid_cons, solid_append, solid_newlines newline, List.nil_append,
          solid_cons c text, List.append_assoc]

theorem solid_splitSentences (text : List Char) : ∀ (skipping : Bool) (cur : List Char),
    solid space (splitSentences space skipping cur text).flatten =
      (solid space cur).reverse ++ solid space text := by
  induction text with
  | nil => intro skipping cur; simp [splitSentences]
  | cons c text ih =>
    intro skipping cur
    rw [splitSentences]
    split
    · next skips =>
      rw [Bool.and_eq_true] at skips
      rw [ih, solid_cons_space skips.1]
    · split
      · next ends =>
        rw [Bool.and_eq_true] at ends
        rw [List.flatten_cons, solid_append, ih, solid_cons_space ends.1, solid_reverse]
        rfl
      · rw [ih, reverse_solid_cons, solid_cons c text, List.append_assoc]

theorem solid_packSentences (blank : space ' ' = true) (chunkChars : Nat)
    (sents : List (List Char)) : ∀ current : List Char,
    solid space (packSentences space chunkChars current sents).flatten =
      solid space current ++ solid space sents.flatten := by
  induction sents with
  | nil =>
    intro current
    rw [packSentences]
    split
    · next empty => simp [empty]
    · simp
  | cons sent rest ih =>
    intro current
    rw [packSentences, List.flatten_cons, solid_append]
    split
    · dsimp only
      rw [ih]
      split
      · next empty => simp [empty]
      · rw [solid_stripChars, solid_append, solid_cons_space blank, List.append_assoc]
    · split
      · next empty => rw [ih, empty, solid_nil, List.nil_append]
      · rw [List.flatten_cons, solid_append, ih]

theorem solid_paragraphs (pieces : List (List Char)) :
    solid space ((pieces.map (stripChars space)).filter (· ≠ [])).flatten =
      solid space pieces.flatten := by
  induction pieces with
  | nil => rfl
  | cons piece pieces ih =>
    rw [List.map_cons, List.flatten_cons, solid_append, ← ih, ← solid_stripChars piece]
    by_cases empty : stripChars space piece = []
    · rw [List.filter_cons_of_neg (by simp [empty]), empty, solid_nil, List.nil_append]
    · rw [List.filter_cons_of_pos (by simp [empty]), List.flatten_cons, solid_append]

/-- The units are the characters of the text, less white space, in their order. -/
theorem solid_chunkUnits (newline : space '\n' = true) (blank : space ' ' = true)
    (chunkChars : Nat) (text : List Char) :
    solid space (chunkUnits space chunkChars text).flatten = solid space text := by
  have paragraphs := solid_splitParagraphs newline text 0 []
  rw [← solid_paragraphs, solid_nil, List.reverse_nil, List.nil_append] at paragraphs
  rw [← paragraphs, chunkUnits]
  generalize ((splitParagraphs 0 [] text).map (stripChars space)).filter (· ≠ []) = paras
  induction paras with
  | nil => rfl
  | cons para paras ih =>
    rw [List.flatMap_cons, List.flatten_append, solid_append, ih, List.flatten_cons, solid_append]
    congr 1
    split
    · simp
    · rw [solid_packSentences blank, solid_splitSentences]
      simp

/-- A blank text has no units. -/
theorem chunkUnits_of_blank (newline : space '\n' = true) (chunkChars : Nat) {text : List Char}
    (blank : stripChars space text = []) : chunkUnits space chunkChars text = [] := by
  have none_ : solid space (splitParagraphs 0 [] text).flatten = [] := by
    rw [solid_splitParagraphs newline, solid_eq_nil_iff.mpr (stripChars_eq_nil_iff.mp blank)]
    rfl
  have empty : ((splitParagraphs 0 [] text).map (stripChars space)).filter (· ≠ []) = [] := by
    simp only [List.filter_eq_nil_iff, List.mem_map, decide_eq_true_eq, not_not]
    rintro _ ⟨piece, mem, rfl⟩
    exact stripChars_eq_nil_iff.mpr fun c hc =>
      solid_eq_nil_iff.mp none_ c (List.mem_flatten_of_mem mem hc)
  rw [chunkUnits, empty]
  rfl

end

/-! ## Packed chunks -/

/-- What is joined to a chunk: the end of the chunk before, if it is not blank, and units. -/
structure Packed where
  lead : List (List Char)
  units : List (List Char)

def Packed.text (p : Packed) : List Char := joinUnits (p.lead ++ p.units)

/-- The last characters of a text, all of them where there are no more. -/
def lastChars (n : Nat) (text : List Char) : List Char := text.drop (text.length - n)

section
variable (space : Char → Bool)

/-- What the next chunk begins with. -/
def leadOf (overlapChars : Nat) (chunk : List Char) : List (List Char) :=
  if stripChars space (lastChars overlapChars chunk) = [] then []
  else [lastChars overlapChars chunk]

/-- The chunks that `packUnits` joins, also those that are too short to be kept. -/
def packed (chunkChars overlapChars : Nat) : Packed → Nat → List (List Char) → List Packed
  | current, _, [] => if current.lead ++ current.units = [] then [] else [current]
  | current, currentLen, unit :: rest =>
    if chunkChars < currentLen + unit.length + 1 ∧ current.lead ++ current.units ≠ [] then
      current :: packed chunkChars overlapChars ⟨leadOf space overlapChars current.text, [unit]⟩
        ((lastChars overlapChars current.text).length + unit.length + 2) rest
    else
      packed chunkChars overlapChars ⟨current.lead, current.units ++ [unit]⟩
        (currentLen + unit.length + 2) rest

/-- The chunks of a text, as they are packed. -/
def packedChunks (text : List Char) (chunkSize overlap : Nat) : List Packed :=
  packed space (chunkSize * 4) (overlap * 4) ⟨[], []⟩ 0 (chunkUnits space (chunkSize * 4) text)

/-- The length of the longest unit. -/
def longestUnit (units : List (List Char)) : Nat := (units.map List.length).foldr max 0

variable {space} {chunkChars overlapChars : Nat}

theorem packUnits_eq (units : List (List Char)) : ∀ (current : Packed) (currentLen : Nat),
    packUnits space chunkChars overlapChars (current.lead ++ current.units) currentLen units =
      (packed space chunkChars overlapChars current currentLen units).flatMap
        fun p => keptChunk p.text := by
  induction units with
  | nil =>
    intro current currentLen
    rw [packUnits, packed]
    split
    · rfl
    · exact (List.append_nil _).symm
  | cons unit rest ih =>
    intro current currentLen
    rw [packUnits, packed]
    split
    · rw [List.flatMap_cons, ← ih]
      rfl
    · rw [← ih, List.append_assoc]

theorem flatMap_keptChunk (chunks : List Packed) :
    chunks.flatMap (fun p => keptChunk p.text) =
      (chunks.filter fun p => minChunkChars ≤ p.text.length).map Packed.text := by
  induction chunks with
  | nil => rfl
  | cons p chunks ih =>
    rw [List.flatMap_cons, ih, keptChunk]
    split
    · next long => rw [List.filter_cons_of_pos (by simpa using long), List.map_cons]; rfl
    · next short => rw [List.filter_cons_of_neg (by simpa using short), List.nil_append]

/-- Every unit goes into one chunk, in order. -/
theorem packed_units (units : List (List Char)) : ∀ (current : Packed) (currentLen : Nat),
    (packed space chunkChars overlapChars current currentLen units).flatMap Packed.units =
      current.units ++ units := by
  induction units with
  | nil =>
    intro current currentLen
    rw [packed]
    split
    · next empty =>
      rw [(List.append_eq_nil_iff.mp empty).2]
      rfl
    · simp
  | cons unit rest ih =>
    intro current currentLen
    rw [packed]
    split
    · rw [List.flatMap_cons, ih]
      rfl
    · rw [ih, List.append_assoc]
      rfl

/-- The first chunk has the lead that it was begun with. -/
theorem packed_head (units : List (List Char)) : ∀ (current : Packed) (currentLen : Nat),
    ∀ p ∈ (packed space chunkChars overlapChars current currentLen units).head?,
      p.lead = current.lead := by
  induction units with
  | nil =>
    intro current currentLen p mem
    rw [packed] at mem
    split at mem
    · cases mem
    · cases mem
      rfl
  | cons unit rest ih =>
    intro current currentLen p mem
    rw [packed] at mem
    split at mem
    · cases mem
      rfl
    · exact ih ⟨current.lead, current.units ++ [unit]⟩ _ p mem

/-- Each chunk is begun with the end of the one before. -/
theorem packed_chain (units : List (List Char)) : ∀ (current : Packed) (currentLen : Nat),
    (packed space chunkChars overlapChars current currentLen units).IsChain
      fun p q => q.lead = leadOf space overlapChars p.text := by
  induction units with
  | nil =>
    intro current currentLen
    rw [packed]
    split
    · exact .nil
    · exact .singleton _
  | cons unit rest ih =>
    intro current currentLen
    rw [packed]
    split
    · refine List.isChain_cons.mpr ⟨?_, ih _ _⟩
      exact packed_head rest _ _
    · exact ih _ _

/-! ## Joining -/

theorem joinUnits_cons {unit : List Char} {units : List (List Char)} (more : units ≠ []) :
    joinUnits (unit :: units) = unit ++ '\n' :: '\n' :: joinUnits units := by
  rw [joinUnits, List.intercalate_cons_of_ne_nil more, List.append_assoc]
  rfl

theorem joinUnits_singleton (unit : List Char) : joinUnits [unit] = unit :=
  List.intercalate_singleton

theorem joinUnits_append {units : List (List Char)} (some_ : units ≠ []) (unit : List Char) :
    joinUnits (units ++ [unit]) = joinUnits units ++ '\n' :: '\n' :: unit := by
  induction units with
  | nil => exact absurd rfl some_
  | cons first units ih =>
    by_cases more : units = []
    · rw [more, List.singleton_append, joinUnits_cons (List.cons_ne_nil _ _),
        joinUnits_singleton, joinUnits_singleton]
    · rw [List.cons_append, joinUnits_cons (by simp), ih more, joinUnits_cons more,
        List.append_assoc]
      rfl

theorem prefix_joinUnits (unit : List Char) (units : List (List Char)) :
    unit <+: joinUnits (unit :: units) := by
  by_cases more : units = []
  · simp only [more, joinUnits_singleton, List.prefix_rfl]
  · rw [joinUnits_cons more]
    exact List.prefix_append _ _

theorem infix_joinUnits {unit : List Char} {units : List (List Char)} (mem : unit ∈ units) :
    unit <:+: joinUnits units := by
  induction units with
  | nil => cases mem
  | cons first units ih =>
    rcases List.mem_cons.mp mem with rfl | later
    · exact (prefix_joinUnits unit units).isInfix
    · rw [joinUnits_cons (List.ne_nil_of_mem later)]
      obtain ⟨before, after, same⟩ := ih later
      exact ⟨first ++ '\n' :: '\n' :: before, after, by rw [← same]; simp⟩

/-! ## Lengths -/

theorem length_lastChars (n : Nat) (text : List Char) : (lastChars n text).length ≤ n := by
  rw [lastChars, List.length_drop]
  omega

/-- A chunk that is begun with the end of another one. -/
theorem length_begun (chunk unit : List Char) :
    (Packed.text ⟨leadOf space overlapChars chunk, [unit]⟩).length ≤
      (lastChars overlapChars chunk).length + unit.length + 2 := by
  unfold Packed.text leadOf
  dsimp only
  split
  · rw [List.nil_append, joinUnits_singleton]
    omega
  · rw [List.singleton_append, joinUnits_cons (List.cons_ne_nil _ _), joinUnits_singleton,
      List.length_append, List.length_cons, List.length_cons]
    omega

theorem le_longestUnit {unit : List Char} {units : List (List Char)} (mem : unit ∈ units) :
    unit.length ≤ longestUnit units := by
  induction units with
  | nil => cases mem
  | cons first units ih =>
    show unit.length ≤ max first.length (longestUnit units)
    rcases List.mem_cons.mp mem with rfl | later
    · exact Nat.le_max_left _ _
    · exact Nat.le_trans (ih later) (Nat.le_max_right _ _)

/-- The chunk is not longer than the length it is packed by, and within the bound. -/
structure Packed.Fits (bound currentLen : Nat) (p : Packed) : Prop where
  counted : p.text.length ≤ currentLen
  bounded : p.text.length ≤ bound

theorem packed_fits {longest : Nat} (units : List (List Char)) :
    ∀ (current : Packed) (currentLen : Nat), (∀ unit ∈ units, unit.length ≤ longest) →
      current.Fits (max (chunkChars + 1) (overlapChars + 2 + longest)) currentLen →
      ∀ p ∈ packed space chunkChars overlapChars current currentLen units,
        p.text.length ≤ max (chunkChars + 1) (overlapChars + 2 + longest) := by
  induction units with
  | nil =>
    intro current currentLen _ fits p mem
    rw [packed] at mem
    split at mem
    · cases mem
    · rw [List.mem_singleton.mp mem]
      exact fits.bounded
  | cons unit rest ih =>
    intro current currentLen short fits p mem
    have here := short unit List.mem_cons_self
    have rest_ := fun u hu => short u (List.mem_cons_of_mem unit hu)
    rw [packed] at mem
    split at mem
    · rcases List.mem_cons.mp mem with rfl | later
      · exact fits.bounded
      · have begun := @length_begun space overlapChars current.text unit
        have tail := length_lastChars overlapChars current.text
        exact ih _ _ rest_ ⟨begun, by omega⟩ p later
    · next room =>
      refine ih _ _ rest_ ?_ p mem
      by_cases first : current.lead ++ current.units = []
      · have text : Packed.text ⟨current.lead, current.units ++ [unit]⟩ = unit := by
          rw [Packed.text, ← List.append_assoc, first, List.nil_append, joinUnits_singleton]
        exact ⟨by rw [text]; omega, by rw [text]; omega⟩
      · have text : Packed.text ⟨current.lead, current.units ++ [unit]⟩ =
            current.text ++ '\n' :: '\n' :: unit := by
          rw [Packed.text, ← List.append_assoc, joinUnits_append first]
          rfl
        have counted := fits.counted
        have length : (Packed.text ⟨current.lead, current.units ++ [unit]⟩).length =
            current.text.length + unit.length + 2 := by
          rw [text, List.length_append, List.length_cons, List.length_cons]
          omega
        have fitted : ¬ chunkChars < currentLen + unit.length + 1 := fun above =>
          room ⟨above, first⟩
        exact ⟨by omega, by omega⟩

end

/-- For every text, chunk size and overlap. The chunks are those of `packedChunks` that are
long enough, and of these: the units are the characters of the text, less white space, in
their order; each unit goes into one chunk, in order, and stands in it as it is; each chunk
but the first begins with the last characters of the one before, if they are not blank; and
none is longer than the bound. -/
theorem chunk_text_complete (space : Char → Bool) (newline : space '\n' = true)
    (blank : space ' ' = true) (text : String) (chunkSize overlap : Nat) :
    let units := chunkUnits space (chunkSize * 4) text.toList
    let chunks := packedChunks space text.toList chunkSize overlap
    chunkText space text chunkSize overlap =
        (chunks.filter fun p => 8 ≤ p.text.length).map (fun p => String.ofList p.text) ∧
      solid space units.flatten = solid space text.toList ∧
      chunks.flatMap Packed.units = units ∧
      (∀ p ∈ chunks, ∀ unit ∈ p.units, unit <:+: p.text) ∧
      chunks.IsChain (fun p q => solid space (lastChars (overlap * 4) p.text) ≠ [] →
        lastChars (overlap * 4) p.text <+: q.text) ∧
      ∀ p ∈ chunks,
        p.text.length ≤ max (chunkSize * 4 + 1) (overlap * 4 + 2 + longestUnit units) := by
  dsimp only
  refine ⟨?_, solid_chunkUnits newline blank _ _, packed_units _ _ _, ?_, ?_, ?_⟩
  · rw [chunkText]
    split
    · next empty =>
      rw [packedChunks, chunkUnits_of_blank newline _ empty]
      rfl
    · have chunks := @packUnits_eq space (chunkSize * 4) (overlap * 4)
        (chunkUnits space (chunkSize * 4) text.toList) ⟨[], []⟩ 0
      rw [flatMap_keptChunk] at chunks
      refine (congrArg (List.map String.ofList) chunks).trans ?_
      rw [List.map_map]
      rfl
  · intro p _ unit mem
    exact infix_joinUnits (List.mem_append_right _ mem)
  · refine (packed_chain _ _ _).imp fun p q begun some_ => ?_
    have lead : q.lead = [lastChars (overlap * 4) p.text] := by
      rw [begun, leadOf, if_neg]
      intro empty
      exact some_ (solid_eq_nil_iff.mpr (stripChars_eq_nil_iff.mp empty))
    show lastChars (overlap * 4) p.text <+: joinUnits (q.lead ++ q.units)
    rw [lead]
    exact prefix_joinUnits _ _
  · exact packed_fits _ _ _ (fun unit mem => le_longestUnit mem) ⟨Nat.le_refl _, Nat.zero_le _⟩

/-! ## Two chunks -/

/-- Chunks of four characters and more, begun with four of the chunk before. -/
def haiku : String := "old pond\n\nfrog leaps in\n\nsplash"

theorem haiku_chunks :
    chunkText (fun c => c = ' ' || c = '\n') haiku 1 1 =
      ["old pond", "pond\n\nfrog leaps in", "s in\n\nsplash"] ∧
    solid (fun c => c = ' ' || c = '\n')
        (chunkUnits (fun c => c = ' ' || c = '\n') 4 haiku.toList).flatten =
      solid (fun c => c = ' ' || c = '\n') haiku.toList :=
  ⟨by decide +kernel, (chunk_text_complete _ rfl rfl haiku 1 1).2.1⟩

end LegionForge.Gateway
