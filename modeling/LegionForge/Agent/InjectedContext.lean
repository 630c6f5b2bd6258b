import LegionForge.Agent.SurvivingInjection
import LegionForge.Gateway.Memory

/-!
# What tools and memory put before the model

`SecureToolNode` puts the results of the tools into the message list, and before each call of
the model the base agent puts what `recall_for_task` finds there. Both go through
`sanitize_output`: a result as long as its content is a text, a document always, of which the
first 600 characters are taken. The type of a document is put in as it is stored.

`injection_free_iff` says when no Tier 1 pattern gets in by either.
-/

namespace LegionForge.Agent

open JsonText Security Regex Gateway

/-! ## Results of tools -/

/-- The texts that step 6 puts into the message list for the answers of the inner node. -/
def resultTexts (env : Env) (sandboxMessages answers : List ToolMessage) : List String :=
  match sanitizeResults env sandboxMessages (answers ++ sandboxMessages) with
  | none => []
  | some msgs => (msgs.take answers.length).map (·.content.str)

/-- Tier 1 is found in the result, and the node is to halt on that. -/
def haltsOn (env : Env) (answer : ToolMessage) : Bool :=
  match answer.content with
  | .text text => tier1Injection env.unicode text && env.haltOnToolResultInjection
  | .parts _ => false

/-- What becomes of a result. -/
def cleanResult (u : Unicode) (answer : ToolMessage) : ToolMessage :=
  match answer.content with
  | .text text => { answer with content := .text (cleanCopy u text) }
  | .parts _ => answer

/-- No Tier 1 match of the result gets past `sanitize_output`, if it goes there. -/
def ResultFree (u : Unicode) (sandboxMessages : List ToolMessage) (answer : ToolMessage) : Prop :=
  match answer.content with
  | .text text =>
    if answer ∈ sandboxMessages then ¬ HasTier1 u text.toList
    else ¬ InjectionKept u maxFieldLength text.toList
  | .parts repr => ¬ HasTier1 u repr.toList

/-! ## Memory -/

section
variable {ν : Type}

/-- `r.get("metadata", {}).get("type", "memory")`, as it is formatted. -/
def typeText (formatted : Json → String) (metadata : Metadata) : String :=
  match metadata.lookup "type" with
  | none => "memory"
  | some (.str text) => text
  | some value => formatted value

/-- How much of a document is taken. -/
def snippetLength : Nat := 600

def lineEndToBlank (c : Char) : Char := if c = '\n' then ' ' else c

/-- `content[:600].replace("\n", " ")` -/
def snippet (content : String) : List Char :=
  (content.toList.take snippetLength).map lineEndToBlank

/-- `[type] snippet` -/
def recallLine (formatted : Json → String) (hit : SearchHit) : List Char :=
  '[' :: (typeText formatted hit.metadata).toList ++ ']' :: ' ' :: snippet hit.content

/-- `recall_for_task`, with what the search comes back with. -/
def recallForTask (env : MemoryEnv ν) (recallOnTask : Bool) (formatted : Json → String)
    (found : Except String (List SearchHit)) : List Char :=
  if !(env.enabled && recallOnTask) then []
  else match found with
    | .error _ => []
    | .ok hits => ['\n'].intercalate (hits.map (recallLine formatted))

def memoryTitle : List Char := "[Relevant memory from past runs]".toList

/-- The message that the base agent puts before the others. -/
def memoryMessage (env : MemoryEnv ν) (recallOnTask : Bool) (formatted : Json → String)
    (task : String) (found : Except String (List SearchHit)) : Option (List Char) :=
  if !(env.enabled && recallOnTask) || task = "" then none
  else
    let memoryCtx := recallForTask env recallOnTask formatted found
    if memoryCtx = [] then none else some (memoryTitle ++ '\n' :: memoryCtx)

/-- What `similarity_search` returns, before it is sanitised. -/
def retrieved (env : MemoryEnv ν) (outside : Outside ν) (query ns : String) (limit : Nat)
    (minSimilarity : ℚ) (db : Documents ν) : Except String (List SearchHit) :=
  match outside.embed 0 query with
  | .error e => .error e
  | .ok embedding => statement outside 0 (similaritySearch env (outside.now 0) embedding limit
      minSimilarity (db.inNamespace ns))

def sanitizedHit (u : Unicode) (hit : SearchHit) : SearchHit :=
  { hit with content := (sanitizeOutput u hit.content).1 }

@[simp] theorem sanitizedHit_metadata (u : Unicode) (hit : SearchHit) :
    (sanitizedHit u hit).metadata = hit.metadata := by
  unfold sanitizedHit
  rfl

theorem search_eq (env : MemoryEnv ν) (outside : Outside ν) (query ns : String) (limit : Nat)
    (minSimilarity : ℚ) (db : Documents ν) :
    search env outside query ns limit minSimilarity db =
      (retrieved env outside query ns limit minSimilarity db).map fun hits =>
        hits.map (sanitizedHit env.unicode) := by
  cases embedded : outside.embed 0 query with
  | error e => rw [search, retrieved, embedded]; rfl
  | ok embedding =>
    rw [search_of_embedded env outside embedded, retrieved, embedded]
    rfl

end

/-! ## The results -/

section
variable {env : Env} {sandboxMessages : List ToolMessage}

theorem sanitizeResults_eq (msgs : List ToolMessage) : sanitizeResults env sandboxMessages msgs =
    if msgs.any (fun m => !sandboxMessages.contains m && haltsOn env m) then none
    else some (msgs.map fun m =>
      if sandboxMessages.contains m then m else cleanResult env.unicode m) := by
  induction msgs with
  | nil => rfl
  | cons m rest ih =>
    rw [sanitizeResults, ih, List.any_cons, List.map_cons]
    cases own : sandboxMessages.contains m with
    | true =>
      simp only [if_true, Bool.not_true, Bool.false_and, Bool.false_or]
      split <;> rfl
    | false =>
      simp only [Bool.false_eq_true, if_false, Bool.not_false, Bool.true_and]
      unfold haltsOn cleanResult
      cases m.content with
      | parts repr =>
        simp only [Bool.false_or]
        split <;> rfl
      | text text =>
        have tier : ((sanitizeOutput env.unicode text).2.injectionDetected &&
            hasHaltWorthyInjection (sanitizeOutput env.unicode text).2.injectionPatterns) =
            tier1Injection env.unicode text := sanitizeToolInput_halts text
        simp only [tier]
        cases tier1Injection env.unicode text && env.haltOnToolResultInjection with
        | true => simp
        | false =>
          simp only [Bool.false_eq_true, if_false, Bool.false_or]
          split <;> rfl

theorem resultTexts_eq (answers : List ToolMessage) :
    resultTexts env sandboxMessages answers =
      if answers.any (fun m => !sandboxMessages.contains m && haltsOn env m) then []
      else answers.map fun m =>
        (if sandboxMessages.contains m then m else cleanResult env.unicode m).content.str := by
  have own : sandboxMessages.any (fun m => !sandboxMessages.contains m && haltsOn env m) =
      false := by
    refine List.any_eq_false.mpr fun m mem => ?_
    simp [mem]
  rw [resultTexts, sanitizeResults_eq, List.any_append, own, Bool.or_false]
  cases answers.any fun m => !sandboxMessages.contains m && haltsOn env m with
  | true => rfl
  | false =>
    simp only [Bool.false_eq_true, if_false, List.map_append]
    rw [List.take_append_of_le_length (by simp), List.take_of_length_le (by simp), List.map_map]
    rfl

theorem result_free_iff (tables : InjectionTables env.unicode) (answer : ToolMessage) :
    ¬ HasTier1 env.unicode
        (if sandboxMessages.contains answer then answer
          else cleanResult env.unicode answer).content.str.toList ↔
      ResultFree env.unicode sandboxMessages answer := by
  unfold ResultFree cleanResult
  cases content : answer.content with
  | parts repr =>
    simp only [ite_self, content]
    rfl
  | text text =>
    by_cases own : answer ∈ sandboxMessages
    · rw [if_pos (List.contains_iff_mem.mpr own), content]
      simp only [if_pos own]
      rfl
    · have foreign : ¬ sandboxMessages.contains answer = true :=
        fun found => own (List.contains_iff_mem.mp found)
      rw [if_neg foreign]
      simp only [if_neg own]
      exact not_congr (tier1_cleanCopy_iff tables text)

theorem results_free_iff (tables : InjectionTables env.unicode) (answers : List ToolMessage) :
    (∀ text ∈ resultTexts env sandboxMessages answers, ¬ HasTier1 env.unicode text.toList) ↔
      (∃ m ∈ answers, m ∉ sandboxMessages ∧ haltsOn env m = true) ∨
        ∀ m ∈ answers, ResultFree env.unicode sandboxMessages m := by
  have halts : answers.any (fun m => !sandboxMessages.contains m && haltsOn env m) = true ↔
      ∃ m ∈ answers, m ∉ sandboxMessages ∧ haltsOn env m = true := by
    simp
  rw [resultTexts_eq, ← halts]
  cases answers.any fun m => !sandboxMessages.contains m && haltsOn env m with
  | true => simp
  | false =>
    simp only [Bool.false_eq_true, if_false, false_or, List.forall_mem_map]
    exact forall₂_congr fun m _ => result_free_iff tables m

end

/-! ## The message from memory -/

section
variable {u : Unicode} {q : InjectionPattern} {w : List Char}

theorem hasTier1_of_infix {part text : List Char} (inside : part <:+: text)
    (found : HasTier1 u part) : HasTier1 u text := by
  obtain ⟨q, halts, x, w, y, rfl, spans⟩ := hasTier1_iff.mp found
  obtain ⟨left, right, rfl⟩ := inside
  exact hasTier1_iff.mpr ⟨q, halts, left ++ x, w, y ++ right, by simp, spans⟩

theorem Core.hasTier1 (core : Core u q w) (halts : q.halts = true) {text : List Char}
    (inside : w <:+: text) : HasTier1 u text := by
  obtain ⟨x, y, rfl⟩ := inside
  exact hasTier1_iff.mpr ⟨q, halts, x, w, y, rfl, core.spans⟩

theorem InjectionKept.hasTier1 {limit : Nat} {text : List Char}
    (kept : InjectionKept u limit text) : HasTier1 u text := by
  obtain ⟨q, halts, before, w, after, -, rfl, spans, -⟩ := kept
  have plain := tier1_plain q (injectionPattern_mem_all q) halts
  exact hasTier1_iff.mpr ⟨q, halts, before, w, after, rfl, spans_anywhere plain spans⟩

theorem exists_core_of_hasTier1 (tables : InjectionTables u) {text : List Char}
    (found : HasTier1 u text) :
    ∃ (q : InjectionPattern) (w : List Char), q.halts = true ∧ Core u q w ∧ w <:+: text := by
  obtain ⟨q, halts, x, w, y, rfl, spans⟩ := hasTier1_iff.mp found
  obtain ⟨v, rest, rfl, core⟩ := exists_core tables halts spans
  exact ⟨q, v, halts, core, x, rest ++ y, by simp⟩

/-! ### Where a match in the lines stands -/

theorem infix_of_infix_concat {left : List Char} {c : Char} (last : w.getLast? ≠ some c)
    (inside : w <:+: left ++ [c]) : w <:+: left := by
  rcases List.infix_concat_iff.mp inside with suffix | inside
  · rcases List.eq_nil_or_concat w with rfl | ⟨w', c', rfl⟩
    · exact List.nil_infix
    · rw [List.concat_eq_append] at suffix last
      obtain ⟨x, whole⟩ := suffix
      rw [← List.append_assoc] at whole
      obtain ⟨-, same⟩ := List.append_inj' whole rfl
      rw [List.getLast?_concat, (List.singleton_inj.mp same)] at last
      exact absurd rfl last
  · exact inside

theorem infix_of_infix_cons {right : List Char} {c : Char} (first : w.head? ≠ some c)
    (inside : w <:+: c :: right) : w <:+: right := by
  rcases List.infix_cons_iff.mp inside with front | inside
  · cases w with
    | nil => exact List.nil_infix
    | cons c' w =>
      obtain ⟨rfl, -⟩ := List.cons_prefix_cons.mp front
      exact absurd rfl first
  · exact inside

/-- A closed stretch is on one side of a bracket that opens, or begins with it. -/
theorem Closed.beside_opening (closed : Closed w) {left right : List Char}
    (inside : w <:+: left ++ '[' :: right) : w <:+: left ∨ w <:+: '[' :: right := by
  obtain ⟨x, y, split⟩ := inside
  rcases List.append_eq_append_iff.mp split with ⟨a, rfl, -⟩ | ⟨a, first, second⟩
  · exact .inl ⟨x, a, rfl⟩
  · rcases List.append_eq_append_iff.mp first with ⟨m, rfl, rfl⟩ | ⟨m, rfl, rfl⟩
    · cases m with
      | nil => exact .inr ⟨[], y, by simpa using second.symm⟩
      | cons c m =>
        cases a with
        | nil => exact .inl ⟨x, [], by simp⟩
        | cons c' a =>
          obtain ⟨rfl, -⟩ := List.cons.inj second
          have none := closed.1 (c :: m) a rfl
          cases none
    · exact .inr ⟨m, y, second.symm⟩

/-- A closed stretch is on one side of a bracket that closes, or ends with it. -/
theorem Closed.beside_closing (closed : Closed w) {left right : List Char}
    (inside : w <:+: left ++ ']' :: right) : w <:+: left ++ [']'] ∨ w <:+: right := by
  obtain ⟨x, y, split⟩ := inside
  rcases List.append_eq_append_iff.mp split with ⟨a, rfl, -⟩ | ⟨a, first, second⟩
  · exact .inl ⟨x, a ++ [']'], by simp⟩
  · cases a with
    | nil => exact .inl ⟨x, [']'], by rw [first]; simp⟩
    | cons c a =>
      obtain ⟨rfl, rfl⟩ := List.cons.inj second
      rcases List.append_eq_append_iff.mp first with ⟨m, rfl, rfl⟩ | ⟨m, rfl, whole⟩
      · obtain rfl := closed.2 m a rfl
        exact .inl ⟨x, [], by simp⟩
      · cases m with
        | nil =>
          rw [List.nil_append] at whole
          subst whole
          obtain rfl := closed.2 [] a rfl
          exact .inl ⟨left, [], by simp⟩
        | cons c m =>
          obtain ⟨rfl, rfl⟩ := List.cons.inj whole
          exact .inr ⟨m, y, rfl⟩

theorem Core.beside_line_end (tables : InjectionTables u) (halts : q.halts = true)
    (core : Core u q w) {left : List Char} (inside : w <:+: left ++ ['\n']) : w <:+: left := by
  refine infix_of_infix_concat (fun last => ?_) inside
  exact core.edges tables halts false '\n' last (by simp)

theorem Core.behind_blank (tables : InjectionTables u) (halts : q.halts = true)
    (core : Core u q w) {right : List Char} (inside : w <:+: ' ' :: right) : w <:+: right := by
  refine infix_of_infix_cons (fun first => ?_) inside
  exact core.edges tables halts true ' ' first (by simp)

/-- `[type]` -/
def typeTag (formatted : Json → String) (metadata : Metadata) : List Char :=
  '[' :: (typeText formatted metadata).toList ++ [']']

/-- A match in the lines is in what stands before them, in a type or in a snippet. -/
theorem Core.in_lines (tables : InjectionTables u) (halts : q.halts = true) (core : Core u q w)
    {formatted : Json → String} {hits : List SearchHit} : ∀ {before : List Char},
    w <:+: before ++ hits.flatMap (fun hit => '\n' :: recallLine formatted hit) →
    w <:+: before ∨ ∃ hit ∈ hits,
      w <:+: typeTag formatted hit.metadata ∨ w <:+: snippet hit.content := by
  induction hits with
  | nil =>
    intro before inside
    rw [List.flatMap_nil, List.append_nil] at inside
    exact .inl inside
  | cons hit hits ih =>
    intro before inside
    rw [List.flatMap_cons, ← List.append_assoc] at inside
    rcases ih inside with inside | ⟨later, mem, inside⟩
    · have inside : w <:+: (before ++ '\n' :: '[' :: (typeText formatted hit.metadata).toList) ++
          ']' :: ' ' :: snippet hit.content := by
        simpa [recallLine] using inside
      rcases core.closed.beside_closing inside with inside | inside
      · have inside : w <:+: (before ++ ['\n']) ++
            '[' :: ((typeText formatted hit.metadata).toList ++ [']']) := by
          simpa using inside
        rcases core.closed.beside_opening inside with inside | inside
        · exact .inl (core.beside_line_end tables halts inside)
        · exact .inr ⟨hit, List.mem_cons_self, .inl inside⟩
      · exact .inr ⟨hit, List.mem_cons_self, .inr (core.behind_blank tables halts inside)⟩
    · exact .inr ⟨later, List.mem_cons_of_mem _ mem, inside⟩

theorem memoryTitle_free (tables : InjectionTables u) : ¬ HasTier1 u memoryTitle := by
  have unseen : ∀ q ∈ InjectionPattern.all, q.halts = true →
      q.pattern.search Unicode.ascii.toCharData true memoryTitle = false := by
    decide +kernel
  intro found
  obtain ⟨q, w, halts, core, inside⟩ := exists_core_of_hasTier1 tables found
  have plain := tier1_plain q (injectionPattern_mem_all q) halts
  have seen := search_ascii_of_infix tables plain (by decide) core.spans inside
  rw [unseen q (injectionPattern_mem_all q) halts] at seen
  cases seen

theorem hasTier1_lines_iff (tables : InjectionTables u) {formatted : Json → String}
    {hits : List SearchHit} :
    HasTier1 u (memoryTitle ++ hits.flatMap fun hit => '\n' :: recallLine formatted hit) ↔
      ∃ hit ∈ hits,
        HasTier1 u (typeTag formatted hit.metadata) ∨ HasTier1 u (snippet hit.content) := by
  constructor
  · intro found
    obtain ⟨q, w, halts, core, inside⟩ := exists_core_of_hasTier1 tables found
    rcases core.in_lines tables halts inside with inside | ⟨hit, mem, inside | inside⟩
    · exact absurd (core.hasTier1 halts inside) (memoryTitle_free tables)
    · exact ⟨hit, mem, .inl (core.hasTier1 halts inside)⟩
    · exact ⟨hit, mem, .inr (core.hasTier1 halts inside)⟩
  · rintro ⟨hit, mem, found⟩
    have line : recallLine formatted hit <:+:
        memoryTitle ++ hits.flatMap fun hit => '\n' :: recallLine formatted hit := by
      obtain ⟨some_hits, others, rfl⟩ := List.append_of_mem mem
      rw [List.flatMap_append, List.flatMap_cons]
      exact ⟨memoryTitle ++ (some_hits.flatMap fun hit => '\n' :: recallLine formatted hit) ++
        ['\n'], others.flatMap fun hit => '\n' :: recallLine formatted hit, by simp⟩
    rcases found with in_type | in_snippet
    · have part : typeTag formatted hit.metadata <:+: recallLine formatted hit :=
        ⟨[], ' ' :: snippet hit.content, by simp [typeTag, recallLine]⟩
      exact hasTier1_of_infix (part.trans line) in_type
    · have part : snippet hit.content <:+: recallLine formatted hit :=
        ⟨typeTag formatted hit.metadata ++ [' '], [], by simp [typeTag, recallLine]⟩
      exact hasTier1_of_infix (part.trans line) in_snippet

/-! ### Snippets -/

/-- A blank and a line end are read as space only. -/
theorem reads_only_space (tables : InjectionTables u) {c : Char} (mem : c ∈ [' ', '\n'])
    {item : ClassItem} (allowed : tier1Items item = true) (reads : Reads u.toCharData c item) :
    item = .space := by
  have ascii : c.toNat < 128 := by
    have all : ∀ c ∈ [' ', '\n'], c.toNat < 128 := by decide
    exact all c mem
  have reads := tables.ascii c ascii item allowed reads
  have letters : ∀ c ∈ [' ', '\n'], ¬ Reads Unicode.ascii.toCharData c .digit ∧
      ∀ x ∈ wordChars ++ ".[]/INST".toList, ¬ Reads Unicode.ascii.toCharData c (.char x) := by
    decide
  cases item with
  | char x =>
    exact absurd reads ((letters c mem).2 x (List.contains_iff_mem.mp allowed))
  | space => rfl
  | digit => exact absurd reads (letters c mem).1
  | range | word => cases allowed

theorem readsAs_blank (tables : InjectionTables u) (c : Char) :
    ReadsAs tier1Items u.toCharData (lineEndToBlank c) u.toCharData c ∧
      ReadsAs tier1Items u.toCharData c u.toCharData (lineEndToBlank c) := by
  unfold lineEndToBlank
  split
  · next line_end =>
    subst line_end
    constructor
    · intro item allowed reads
      rw [reads_only_space tables (by simp) allowed reads]
      exact tables.newline
    · intro item allowed reads
      rw [reads_only_space tables (by simp) allowed reads]
      exact tables.blank
  · exact ⟨fun _ _ => id, fun _ _ => id⟩

/-- To Tier 1 a snippet is the beginning of the document. -/
theorem hasTier1_snippet_iff (tables : InjectionTables u) (content : String) :
    HasTier1 u (snippet content) ↔ Tier1Within u snippetLength content.toList := by
  rw [hasTier1_iff, Tier1Within]
  constructor
  · rintro ⟨q, halts, x, w, y, split, spans⟩
    obtain ⟨xw, y, start, front, rfl⟩ := List.map_eq_append_iff.mp split
    obtain ⟨x, w, rfl, rfl, rfl⟩ := List.map_eq_append_iff.mp front
    have short : (x ++ w).length ≤ snippetLength := by
      have size := congrArg List.length start
      rw [List.length_take, List.length_append] at size
      omega
    refine ⟨q, halts, x, w, y ++ content.toList.drop snippetLength, ?_, ?_, ?_⟩
    · rw [← List.append_assoc, ← start, List.take_append_drop]
    · rwa [List.length_append] at short
    · have pairs := @spans_pairs u.toCharData u.toCharData tier1Items q.pattern [] [] [] []
        (w.map fun c => (lineEndToBlank c, c)) (tier1_plain q (injectionPattern_mem_all q) halts)
      simp only [List.map_map, Function.comp_def, List.map_id'] at pairs
      refine pairs (fun z mem => ?_) spans
      obtain ⟨c, -, rfl⟩ := List.mem_map.mp mem
      exact (readsAs_blank tables c).1
  · rintro ⟨q, halts, x, w, y, split, short, spans⟩
    obtain ⟨y', start⟩ : ∃ y', content.toList.take snippetLength = x ++ w ++ y' := by
      rw [split, List.take_append, List.take_of_length_le (by rwa [List.length_append])]
      exact ⟨_, rfl⟩
    refine ⟨q, halts, x.map lineEndToBlank, w.map lineEndToBlank, y'.map lineEndToBlank, ?_, ?_⟩
    · rw [snippet, start, List.map_append, List.map_append]
    · have pairs := @spans_pairs u.toCharData u.toCharData tier1Items q.pattern [] [] [] []
        (w.map fun c => (c, lineEndToBlank c)) (tier1_plain q (injectionPattern_mem_all q) halts)
      simp only [List.map_map, Function.comp_def, List.map_id'] at pairs
      refine pairs (fun z mem => ?_) spans
      obtain ⟨c, -, rfl⟩ := List.mem_map.mp mem
      exact (readsAs_blank tables c).2

theorem hasTier1_sanitizedHit_iff (tables : InjectionTables u) (hit : SearchHit) :
    HasTier1 u (snippet (sanitizedHit u hit).content) ↔
      InjectionKept u snippetLength hit.content.toList :=
  (hasTier1_snippet_iff tables _).trans (tier1Within_cleanCopy_iff tables (by decide))

end

section
variable {ν : Type}

/-- No Tier 1 match of the document gets into a message. -/
structure HitFree (u : Unicode) (formatted : Json → String) (hit : SearchHit) : Prop where
  type : ¬ HasTier1 u (typeTag formatted hit.metadata)
  content : ¬ InjectionKept u snippetLength hit.content.toList

theorem lines_eq {formatted : Json → String} (hits : List SearchHit) (some_hits : hits ≠ []) :
    memoryTitle ++ '\n' :: ['\n'].intercalate (hits.map (recallLine formatted)) =
      memoryTitle ++ hits.flatMap fun hit => '\n' :: recallLine formatted hit := by
  congr 1
  induction hits with
  | nil => exact absurd rfl some_hits
  | cons hit hits ih =>
    cases hits with
    | nil => simp [List.intercalate]
    | cons next hits =>
      rw [List.flatMap_cons, ← ih (List.cons_ne_nil next hits)]
      simp [List.intercalate]

theorem memoryMessage_eq_some {env : MemoryEnv ν} {recallOnTask : Bool}
    {formatted : Json → String} {task : String} {found : Except String (List SearchHit)}
    {text : List Char} :
    memoryMessage env recallOnTask formatted task found = some text ↔
      env.enabled = true ∧ recallOnTask = true ∧ task ≠ "" ∧
        ∃ hits, found = .ok hits ∧ hits ≠ [] ∧
          text = memoryTitle ++ hits.flatMap fun hit => '\n' :: recallLine formatted hit := by
  unfold memoryMessage recallForTask
  by_cases on : env.enabled = true ∧ recallOnTask = true
  · by_cases asked : task = ""
    · simp [asked]
    · cases found with
      | error e => simp [on.1, on.2, asked]
      | ok hits =>
        cases hits with
        | nil => simp [on.1, on.2, asked, List.intercalate]
        | cons hit hits =>
          have some_text :
              ['\n'].intercalate ((hit :: hits).map (recallLine formatted)) ≠ [] := by
            cases hits <;> simp [List.intercalate, recallLine]
          have lines := @lines_eq formatted (hit :: hits) (List.cons_ne_nil hit hits)
          simp only [on.1, on.2, Bool.and_self, Bool.not_true, Bool.false_eq_true, if_false,
            Bool.false_or, asked, decide_false, some_text, lines]
          simp [eq_comm, asked]
  · have off : (env.enabled && recallOnTask) = false := by
      simpa using on
    simp only [off, Bool.not_false, Bool.true_or, if_true]
    simp only [reduceCtorEq, false_iff]
    rintro ⟨enabled, recalls, -⟩
    exact on ⟨enabled, recalls⟩

theorem memory_free_iff {env : MemoryEnv ν} (tables : InjectionTables env.unicode)
    (outside : Outside ν) (recallOnTask : Bool) (formatted : Json → String) (task ns : String)
    (limit : Nat) (minSimilarity : ℚ) (db : Documents ν) :
    (∀ text, memoryMessage env recallOnTask formatted task
        (search env outside task ns limit minSimilarity db) = some text →
        ¬ HasTier1 env.unicode text) ↔
      (env.enabled = true → recallOnTask = true → task ≠ "" →
        ∀ hits, retrieved env outside task ns limit minSimilarity db = .ok hits →
          ∀ hit ∈ hits, HitFree env.unicode formatted hit) := by
  rw [search_eq]
  constructor
  · intro free enabled recalls asked hits found hit mem
    have message := free _ (memoryMessage_eq_some.mpr ⟨enabled, recalls, asked,
      hits.map (sanitizedHit env.unicode), by rw [found]; rfl,
      List.map_eq_nil_iff.not.mpr (List.ne_nil_of_mem mem), rfl⟩)
    rw [hasTier1_lines_iff tables] at message
    have sanitized : sanitizedHit env.unicode hit ∈ hits.map (sanitizedHit env.unicode) :=
      List.mem_map_of_mem mem
    constructor
    · intro in_type
      refine message ⟨sanitizedHit env.unicode hit, sanitized, .inl ?_⟩
      rwa [sanitizedHit_metadata]
    · intro kept
      have in_snippet := (hasTier1_sanitizedHit_iff tables hit).mpr kept
      exact message ⟨sanitizedHit env.unicode hit, sanitized, .inr in_snippet⟩
  · intro free text put
    obtain ⟨enabled, recalls, asked, hits, found, -, rfl⟩ := memoryMessage_eq_some.mp put
    rw [hasTier1_lines_iff tables]
    rintro ⟨hit, mem, inside⟩
    cases raw : retrieved env outside task ns limit minSimilarity db with
    | error e =>
      rw [raw] at found
      cases found
    | ok docs =>
      rw [raw] at found
      cases found
      obtain ⟨doc, stored, rfl⟩ := List.mem_map.mp mem
      have free := free enabled recalls asked docs raw doc stored
      rw [sanitizedHit_metadata] at inside
      rcases inside with in_type | in_snippet
      · exact free.type in_type
      · exact free.content ((hasTier1_sanitizedHit_iff tables doc).mp in_snippet)

/-! ## Both -/

/-- No Tier 1 pattern gets before the model by a result or by a document exactly if the node
halts on a result or none has a match that it keeps, and no document has one that is kept
within its first 600 characters, or in its type. -/
theorem injection_free_iff (env : Env) (memory : MemoryEnv ν)
    (tables : InjectionTables env.unicode) (tables' : InjectionTables memory.unicode)
    (sandboxMessages answers : List ToolMessage) (outside : Outside ν) (recallOnTask : Bool)
    (formatted : Json → String) (task ns : String) (limit : Nat) (minSimilarity : ℚ)
    (db : Documents ν) :
    ((∀ text ∈ resultTexts env sandboxMessages answers, ¬ HasTier1 env.unicode text.toList) ∧
      ∀ text, memoryMessage memory recallOnTask formatted task
        (search memory outside task ns limit minSimilarity db) = some text →
        ¬ HasTier1 memory.unicode text) ↔
      ((∃ m ∈ answers, m ∉ sandboxMessages ∧ haltsOn env m = true) ∨
        ∀ m ∈ answers, ResultFree env.unicode sandboxMessages m) ∧
      (memory.enabled = true → recallOnTask = true → task ≠ "" →
        ∀ hits, retrieved memory outside task ns limit minSimilarity db = .ok hits →
          ∀ hit ∈ hits, HitFree memory.unicode formatted hit) :=
  and_congr (results_free_iff tables answers)
    (memory_free_iff tables' outside recallOnTask formatted task ns limit minSimilarity db)

def sampleMemory : MemoryEnv Unit where
  unicode := .ascii
  enabled := true
  maxDocsPerNamespace := 500
  jsonb members := members
  similarity _ _ := ((1 : ℚ) : Float8)
  decayed similarity _ := similarity
  isoformat _ := "2026-03-01T00:00:00+00:00"
  refused _ := "refused"

def sampleOutside : Outside Unit where
  embed _ _ := .ok ()
  fails _ := none
  now _ := 0

/-- A page that the tool has read, and a document that was stored, both saying it. -/
def sampleResult (text : String) : ToolMessage := ⟨.text text, "call-1", "fetch_page"⟩

def sampleDocuments (text : String) : Documents Unit :=
  Documents.empty.insert 0 text () "agent:base_agent" []

theorem not_hasTier1_of_unseen {text : List Char} (unseen : ∀ q ∈ InjectionPattern.all,
    q.halts = true → q.pattern.search Unicode.ascii.toCharData true text = false) :
    ¬ HasTier1 .ascii text := by
  rintro ⟨q, halts, seen⟩
  rw [unseen q (injectionPattern_mem_all q) halts] at seen
  cases seen

/-- A text without a Tier 1 pattern is put before the model by both. -/
theorem minutes_injection_free :
    (∀ text ∈ resultTexts sampleEnv [] [sampleResult "minutes"],
        ¬ HasTier1 .ascii text.toList) ∧
      ∀ text, memoryMessage sampleMemory true plainRepr "report"
        (search sampleMemory sampleOutside "report" "agent:base_agent" 5 0
          (sampleDocuments "minutes")) = some text → ¬ HasTier1 .ascii text := by
  have unseen : ¬ HasTier1 .ascii "minutes".toList := not_hasTier1_of_unseen (by decide +kernel)
  have nothing_kept : ∀ limit, ¬ InjectionKept .ascii limit "minutes".toList :=
    fun limit kept => unseen kept.hasTier1
  refine (injection_free_iff sampleEnv sampleMemory ascii_injectionTables ascii_injectionTables
    [] [sampleResult "minutes"] sampleOutside true plainRepr "report" "agent:base_agent" 5 0
    (sampleDocuments "minutes")).mpr ⟨.inr fun m mem => ?_, fun _ _ _ hits found hit mem => ?_⟩
  · rw [List.mem_singleton.mp mem]
    exact nothing_kept maxFieldLength
  · obtain rfl : [⟨1, "minutes", [], 0, ((1 : ℚ) : Float8), ((1 : ℚ) : Float8)⟩] = hits :=
      Except.ok.inj found
    rw [List.mem_singleton.mp mem]
    exact ⟨not_hasTier1_of_unseen (by decide +kernel), nothing_kept snippetLength⟩

/-- A page and a document that say so. -/
theorem jailbreak_put_before_model :
    (∃ text ∈ resultTexts { sampleEnv with haltOnToolResultInjection := false } []
        [sampleResult "jailbreak"], HasTier1 .ascii text.toList) ∧
      ∃ text, memoryMessage sampleMemory true plainRepr "report"
        (search sampleMemory sampleOutside "report" "agent:base_agent" 5 0
          (sampleDocuments "jailbreak")) = some text ∧ HasTier1 .ascii text := by
  constructor
  · refine ⟨"jailbreak", ?_, .jailbreak, rfl, ?_⟩
    · decide +kernel
    · decide +kernel
  · refine ⟨"[Relevant memory from past runs]\n[memory] jailbreak".toList, ?_, .jailbreak, rfl, ?_⟩
    · decide +kernel
    · decide +kernel

end

end LegionForge.Agent
