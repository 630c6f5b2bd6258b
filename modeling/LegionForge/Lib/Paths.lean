import Mathlib

/-!
# Paths and links

A file system is a tree of entries, some of which are links to other paths. The kernel
follows links as it goes, and fails where a name is missing, is no directory, or where links
lead on for too long. `realpath` computes where a path leads without failing: what is missing
it takes as it is spelled, and a link that leads back to itself it leaves in place.

So the two may differ, but not where the kernel arrives: if it arrives by the path, then
where `realpath` says (`walks_realpath`), and if it arrives by the path that `realpath`
returns, then exactly there (`locate_realpath`). For the second the links that are left in
place must lead nowhere, which is the invariant: a link that is met while it is being
resolved cannot be followed to an end, since its end would be its own after fewer steps.

Directories may be made in between (`openWrite_realpath`): a link that leads nowhere is not
one that the path goes through after that either.
-/

namespace Paths

/-! ## File systems -/

/-- A place in the tree: the names on the way to it, the last one first. -/
abbrev Loc := List String

inductive Entry where
  | dir
  | file (content : ByteArray)
  | link (target : String)
  deriving DecidableEq

/-- A name that an entry may have. -/
def properName (name : String) : Bool := name ≠ "" && name ≠ "." && name ≠ ".."

structure FileSystem where
  entry : Loc → Option Entry
  root : entry [] = some .dir
  parent : ∀ name loc, entry (name :: loc) ≠ none → entry loc = some .dir
  proper : ∀ name loc, entry (name :: loc) ≠ none → properName name = true

/-- The names of a path. -/
def parts (text : String) : List String := (text.toList.splitOn '/').map String.ofList

/-- Where a path starts, from a place. -/
def base (text : String) (loc : Loc) : Loc := if text.toList.head? = some '/' then [] else loc

theorem mem_of_lookup {α β : Type} [BEq α] [LawfulBEq α] {key : α} {value : β}
    {entries : List (α × β)} (found : entries.lookup key = some value) :
    (key, value) ∈ entries := by
  obtain ⟨before, after, rfl, -⟩ := List.lookup_eq_some_iff.mp found
  simp

namespace FileSystem

/-- The entries of a list, if each has a name and is in a directory of the list. -/
def ofEntries (entries : List (Loc × Entry))
    (valid : ∀ e ∈ entries, e.1 ≠ [] ∧ (∀ name ∈ e.1.head?, properName name = true) ∧
      (e.1.tail = [] ∨ entries.lookup e.1.tail = some .dir)) : FileSystem where
  entry loc := if loc = [] then some .dir else entries.lookup loc
  root := rfl
  parent name loc there := by
    rw [if_neg (List.cons_ne_nil name loc)] at there
    obtain ⟨entry, found⟩ := Option.ne_none_iff_exists'.mp there
    have above : loc = [] ∨ entries.lookup loc = some .dir :=
      (valid (name :: loc, entry) (mem_of_lookup found)).2.2
    split
    · rfl
    · next below => exact above.resolve_left below
  proper name loc there := by
    rw [if_neg (List.cons_ne_nil name loc)] at there
    obtain ⟨entry, found⟩ := Option.ne_none_iff_exists'.mp there
    exact (valid (name :: loc, entry) (mem_of_lookup found)).2.1 name rfl

section
variable (fs : FileSystem)

def linkAt (loc : Loc) : Option String :=
  match fs.entry loc with
  | some (.link target) => some target
  | _ => none

/-! ## The kernel -/

inductive Errno where
  | noent
  | notdir
  | isdir
  | loop
  | exist
  | acces
  | io
  deriving DecidableEq, Repr

/-- Name by name from a place; the last one may be missing. -/
def follow (onLink : List String → Loc → Except Errno Loc) :
    List String → Loc → Except Errno Loc
  | [], loc => .ok loc
  | name :: rest, loc =>
    match fs.entry loc with
    | none => .error .noent
    | some .dir =>
      if name = "" || name = "." then follow onLink rest loc
      else if name = ".." then follow onLink rest loc.tail
      else match fs.linkAt (name :: loc) with
        | some target => onLink (parts target ++ rest) (base target loc)
        | none => follow onLink rest (name :: loc)
    | some _ => .error .notdir

/-- The place the names lead to, with so many links on the way at most. -/
def namei : Nat → List String → Loc → Except Errno Loc
  | 0 => fs.follow fun _ _ => .error .loop
  | links + 1 => fs.follow (namei links)

/-- `MAXSYMLINKS` -/
def maxLinks : Nat := 40

/-- The place that is reached by an absolute path. -/
def locate (loc : Loc) : Except Errno Loc := fs.namei maxLinks loc.reverse []

/-! ## Files and directories

Every directory may be searched. Anything else may fail for reasons of its own.
-/

inductive Access where
  | read
  | mkdir
  | openWrite
  | write
  deriving DecidableEq, Repr

/-- A directory more. -/
def putDir (name : String) (loc : Loc) (dir : fs.entry loc = some .dir)
    (proper : properName name = true) : FileSystem where
  entry other := if other = name :: loc then some .dir else fs.entry other
  root := by simp [fs.root]
  parent name' loc' there := by
    split
    · rfl
    · split at there
      · next same =>
        rw [(List.cons.inj same).2]
        exact dir
      · exact fs.parent name' loc' there
  proper name' loc' there := by
    split at there
    · next same =>
      rw [(List.cons.inj same).1]
      exact proper
    · exact fs.proper name' loc' there

variable (fault : Access → Loc → Option Errno)

def isDir (loc : Loc) : Bool :=
  match fs.locate loc with
  | .ok last => fs.entry last = some .dir
  | .error _ => false

/-- `os.mkdir`, which follows no link that is the last name. -/
def mkdir : Loc → Except Errno FileSystem
  | [] => .error .exist
  | name :: loc =>
    match fs.locate loc with
    | .error e => .error e
    | .ok last =>
      if dir : fs.entry last = some .dir then
        if proper : properName name = true then
          if fs.entry (name :: last) ≠ none then .error .exist
          else match fault .mkdir (name :: last) with
            | some e => .error e
            | none => .ok (fs.putDir name last dir proper)
        else .error .exist
      else if fs.entry last = none then .error .noent
      else .error .notdir

/-- What `exist_ok` makes of an error. -/
def existOk (loc : Loc) (e : Errno) : Except Errno FileSystem :=
  if fs.isDir loc then .ok fs else .error e

/-- `Path.mkdir`, with `parents` and `exist_ok`. -/
def mkdirParents (fs : FileSystem) : Loc → Except Errno FileSystem
  | [] => fs.existOk [] .exist
  | name :: loc =>
    match fs.mkdir fault (name :: loc) with
    | .ok made => .ok made
    | .error .noent =>
      match mkdirParents fs loc with
      | .error e => .error e
      | .ok above =>
        match above.mkdir fault (name :: loc) with
        | .ok made => .ok made
        | .error .noent => .error .noent
        | .error e => above.existOk (name :: loc) e
    | .error e => fs.existOk (name :: loc) e

/-- The file that is opened by a path, with its bytes. -/
def openRead (loc : Loc) : Except Errno (Loc × ByteArray) :=
  match fs.locate loc with
  | .error e => .error e
  | .ok last =>
    match fs.entry last, fault .read last with
    | none, _ => .error .noent
    | some .dir, _ => .error .isdir
    | some (.link _), _ => .error .loop
    | some (.file _), some e => .error e
    | some (.file content), none => .ok (last, content)

/-- The file that is opened by a path, or made, to be written. -/
def openWrite (loc : Loc) : Except Errno Loc :=
  match fs.locate loc with
  | .error e => .error e
  | .ok last =>
    if fs.entry last = some .dir then .error .isdir
    else match fault .openWrite last with
      | some e => .error e
      | none => .ok last

/-- Steps of the kernel, however many links there are on the way. -/
inductive Walks : Nat → List String → Loc → Loc → Prop
  | done {loc : Loc} : Walks 0 [] loc loc
  | stay {k : Nat} {name : String} {rest : List String} {loc last : Loc}
      (dir : fs.entry loc = some .dir) (dot : name = "" ∨ name = ".")
      (next : Walks k rest loc last) :
      Walks (k + 1) (name :: rest) loc last
  | up {k : Nat} {rest : List String} {loc last : Loc} (dir : fs.entry loc = some .dir)
      (next : Walks k rest loc.tail last) : Walks (k + 1) (".." :: rest) loc last
  | into {k : Nat} {name : String} {rest : List String} {loc last : Loc}
      (dir : fs.entry loc = some .dir) (proper : properName name = true)
      (plain : fs.linkAt (name :: loc) = none) (next : Walks k rest (name :: loc) last) :
      Walks (k + 1) (name :: rest) loc last
  | link {k : Nat} {name target : String} {rest : List String} {loc last : Loc}
      (dir : fs.entry loc = some .dir) (proper : properName name = true)
      (linked : fs.linkAt (name :: loc) = some target)
      (next : Walks k (parts target ++ rest) (base target loc) last) :
      Walks (k + 1) (name :: rest) loc last

/-- The steps behind a link. -/
def WalksLink (k : Nat) (link last : Loc) : Prop :=
  ∃ target, fs.linkAt link = some target ∧
    fs.Walks k (parts target) (base target link.tail) last

/-! ## `realpath` -/

/-- What is still to be resolved: a name, or the end of a link's target. -/
inductive Part where
  | name (name : String)
  | marker (link : Loc)
  deriving DecidableEq

abbrev Seen := List (Loc × Option Loc)

def names (rest : List Part) : List String :=
  rest.filterMap fun
    | .name name => some name
    | .marker _ => none

/-- The next name: what is put in its place, the path, and the links that were seen; `none`
where a name with a null raises. A path without live links is the place itself, so `lstat`
looks there. -/
def resolveName (name : String) (path : Loc) (seen : Seen) : Option (List Part × Loc × Seen) :=
  if name = "" || name = "." then some ([], path, seen)
  else if name = ".." then some ([], path.tail, seen)
  else if name.toList.contains '\x00' then none
  else
    let newpath := name :: path
    match fs.linkAt newpath with
    | none => some ([], newpath, seen)
    | some target =>
      match seen.lookup newpath with
      | some (some known) => some ([], known, seen)
      -- a link within itself
      | some none => some ([], newpath, seen)
      | none =>
        some ((parts target).map .name ++ [.marker newpath], base target path,
          (newpath, none) :: seen)

/-- The loop of `realpath`. -/
def realpathFrom : Nat → List Part → Loc → Seen → Option Loc
  | 0, _, _, _ => none
  | _ + 1, [], path, _ => some path
  | fuel + 1, .marker link :: rest, path, seen =>
    realpathFrom fuel rest path ((link, some path) :: seen)
  | fuel + 1, .name name :: rest, path, seen =>
    match fs.resolveName name path seen with
    | none => none
    | some (new, path, seen) => realpathFrom fuel (new ++ rest) path seen

/-- `os.path.realpath`, from the working directory. -/
def realpath (fuel : Nat) (cwd : Loc) (text : String) : Option Loc :=
  fs.realpathFrom fuel ((parts text).map .name) (base text cwd) []

end

section
variable {fs : FileSystem} {k j : Nat} {p : List String} {loc last last' : Loc}

/-! ## Walks -/

/-- A walk along two paths is one along the first and one along the second. -/
theorem walks_append (walks : fs.Walks k p loc last) : ∀ {a b : List String}, p = a ++ b →
    ∃ i j mid, i + j = k ∧ fs.Walks i a loc mid ∧ fs.Walks j b mid last := by
  induction walks with
  | @done loc =>
    intro a b split
    obtain ⟨rfl, rfl⟩ := List.append_eq_nil_iff.mp split.symm
    exact ⟨0, 0, loc, rfl, .done, .done⟩
  | @stay k name rest loc last dir dot next ih =>
    intro a b split
    cases a with
    | nil =>
      obtain rfl : name :: rest = b := split
      exact ⟨0, k + 1, loc, by omega, .done, .stay dir dot next⟩
    | cons n a =>
      obtain ⟨rfl, rfl⟩ := List.cons.inj split
      obtain ⟨i, j, mid, sum, first, second⟩ := ih rfl
      exact ⟨i + 1, j, mid, by omega, .stay dir dot first, second⟩
  | @up k rest loc last dir next ih =>
    intro a b split
    cases a with
    | nil =>
      obtain rfl : ".." :: rest = b := split
      exact ⟨0, k + 1, loc, by omega, .done, .up dir next⟩
    | cons n a =>
      obtain ⟨rfl, rfl⟩ := List.cons.inj split
      obtain ⟨i, j, mid, sum, first, second⟩ := ih rfl
      exact ⟨i + 1, j, mid, by omega, .up dir first, second⟩
  | @into k name rest loc last dir proper plain next ih =>
    intro a b split
    cases a with
    | nil =>
      obtain rfl : name :: rest = b := split
      exact ⟨0, k + 1, loc, by omega, .done, .into dir proper plain next⟩
    | cons n a =>
      obtain ⟨rfl, rfl⟩ := List.cons.inj split
      obtain ⟨i, j, mid, sum, first, second⟩ := ih rfl
      exact ⟨i + 1, j, mid, by omega, .into dir proper plain first, second⟩
  | @link k name target rest loc last dir proper linked next ih =>
    intro a b split
    cases a with
    | nil =>
      obtain rfl : name :: rest = b := split
      exact ⟨0, k + 1, loc, by omega, .done, .link dir proper linked next⟩
    | cons n a =>
      obtain ⟨rfl, rfl⟩ := List.cons.inj split
      obtain ⟨i, j, mid, sum, first, second⟩ := ih (List.append_assoc _ _ _).symm
      exact ⟨i + 1, j, mid, by omega, .link dir proper linked first, second⟩

theorem not_proper_dot {name : String} (dot : name = "" ∨ name = ".") :
    properName name = false := by
  rcases dot with rfl | rfl <;> decide

/-! ### The first step -/

theorem walks_nil (walks : fs.Walks k [] loc last) : k = 0 ∧ last = loc := by
  cases walks
  exact ⟨rfl, rfl⟩

theorem walks_dot {name : String} (dot : name = "" ∨ name = ".")
    (walks : fs.Walks k (name :: p) loc last) : ∃ i, k = i + 1 ∧ fs.Walks i p loc last := by
  cases walks with
  | stay _ _ next => exact ⟨_, rfl, next⟩
  | up => exact absurd dot (by decide)
  | into _ proper | link _ proper =>
    rw [not_proper_dot dot] at proper
    cases proper

theorem walks_up (walks : fs.Walks k (".." :: p) loc last) :
    ∃ i, k = i + 1 ∧ fs.Walks i p loc.tail last := by
  cases walks with
  | stay _ dot => exact absurd dot (by decide)
  | up _ next => exact ⟨_, rfl, next⟩
  | into _ proper | link _ proper => cases proper

theorem walks_into {name : String} (proper : properName name = true)
    (plain : fs.linkAt (name :: loc) = none) (walks : fs.Walks k (name :: p) loc last) :
    ∃ i, k = i + 1 ∧ fs.Walks i p (name :: loc) last := by
  cases walks with
  | stay _ dot =>
    rw [not_proper_dot dot] at proper
    cases proper
  | up => cases proper
  | into _ _ _ next => exact ⟨_, rfl, next⟩
  | link _ _ linked =>
    rw [plain] at linked
    cases linked

/-- A link is walked to its end, and then on. -/
theorem walks_link {name target : String} (proper : properName name = true)
    (linked : fs.linkAt (name :: loc) = some target) (walks : fs.Walks k (name :: p) loc last) :
    ∃ i j mid, i + j + 1 = k ∧ fs.WalksLink i (name :: loc) mid ∧ fs.Walks j p mid last := by
  cases walks with
  | stay _ dot =>
    rw [not_proper_dot dot] at proper
    cases proper
  | up => cases proper
  | into _ _ plain =>
    rw [linked] at plain
    cases plain
  | link _ _ linked' next =>
    rw [linked] at linked'
    cases linked'
    obtain ⟨i, j, mid, sum, first, second⟩ := walks_append next rfl
    exact ⟨i, j, mid, by omega, ⟨target, linked, first⟩, second⟩

/-- The kernel goes one way only. -/
theorem walks_unique (walks : fs.Walks k p loc last) : ∀ {j : Nat} {last' : Loc},
    fs.Walks j p loc last' → k = j ∧ last = last' := by
  induction walks with
  | done =>
    intro j last' other
    obtain ⟨rfl, rfl⟩ := walks_nil other
    exact ⟨rfl, rfl⟩
  | stay _ dot _ ih =>
    intro j last' other
    obtain ⟨i, rfl, next⟩ := walks_dot dot other
    obtain ⟨rfl, same⟩ := ih next
    exact ⟨rfl, same⟩
  | up _ _ ih =>
    intro j last' other
    obtain ⟨i, rfl, next⟩ := walks_up other
    obtain ⟨rfl, same⟩ := ih next
    exact ⟨rfl, same⟩
  | into _ proper plain _ ih =>
    intro j last' other
    obtain ⟨i, rfl, next⟩ := walks_into proper plain other
    obtain ⟨rfl, same⟩ := ih next
    exact ⟨rfl, same⟩
  | link _ proper linked _ ih =>
    intro j last' other
    cases other with
    | stay _ dot =>
      rw [not_proper_dot dot] at proper
      cases proper
    | up => cases proper
    | into _ _ plain =>
      rw [linked] at plain
      cases plain
    | link _ _ linked' next =>
      rw [linked] at linked'
      cases linked'
      obtain ⟨rfl, same⟩ := ih next
      exact ⟨rfl, same⟩

theorem walksLink_unique {link : Loc} (one : fs.WalksLink k link last)
    (other : fs.WalksLink j link last') : k = j ∧ last = last' := by
  obtain ⟨target, linked, walks⟩ := one
  obtain ⟨target', linked', walks'⟩ := other
  rw [linked] at linked'
  cases linked'
  exact walks_unique walks walks'

/-- The kernel walks. -/
theorem walks_of_follow {onLink : List String → Loc → Except Errno Loc}
    (onward : ∀ p loc last, onLink p loc = .ok last → ∃ k, fs.Walks k p loc last) :
    ∀ {p : List String} {loc : Loc}, fs.follow onLink p loc = .ok last →
      ∃ k, fs.Walks k p loc last := by
  intro p
  induction p with
  | nil =>
    intro loc reached
    cases reached
    exact ⟨0, .done⟩
  | cons name p ih =>
    intro loc reached
    unfold follow at reached
    split at reached
    · cases reached
    · next dir =>
      split at reached
      · next dot =>
        obtain ⟨k, next⟩ := ih reached
        exact ⟨k + 1, .stay dir (by simpa using dot) next⟩
      · next no_dot =>
        split at reached
        · next up =>
          subst up
          obtain ⟨k, next⟩ := ih reached
          exact ⟨k + 1, .up dir next⟩
        · next no_up =>
          have proper : properName name = true := by
            simpa [properName, no_up] using no_dot
          split at reached
          · next target linked =>
            obtain ⟨k, next⟩ := onward _ _ _ reached
            exact ⟨k + 1, .link dir proper linked next⟩
          · next plain =>
            obtain ⟨k, next⟩ := ih reached
            exact ⟨k + 1, .into dir proper plain next⟩
    · cases reached

theorem walks_of_namei {links : Nat} : ∀ {p : List String} {loc last : Loc},
    fs.namei links p loc = .ok last → ∃ k, fs.Walks k p loc last := by
  induction links with
  | zero =>
    intro p loc last reached
    exact walks_of_follow (fun _ _ _ h => by cases h) reached
  | succ links ih =>
    intro p loc last reached
    exact walks_of_follow (fun _ _ _ h => ih h) reached

/-! ## Literal places -/

/-- A path that is the place itself, but for links in it that lead nowhere. -/
structure Literal (fs : FileSystem) (path : Loc) : Prop where
  proper : ∀ name ∈ path, properName name = true
  dead : ∀ link, link <:+ path → ∀ k last, ¬ fs.WalksLink k link last

theorem Literal.tail {path : Loc} (literal : fs.Literal path) : fs.Literal path.tail where
  proper name mem := literal.proper name (List.mem_of_mem_tail mem)
  dead link suffix := literal.dead link (suffix.trans (List.tail_suffix path))

theorem Literal.cons {name : String} {path : Loc} (literal : fs.Literal path)
    (proper : properName name = true) (dead : ∀ k last, ¬ fs.WalksLink k (name :: path) last) :
    fs.Literal (name :: path) where
  proper other mem := by
    rcases List.mem_cons.mp mem with rfl | later
    · exact proper
    · exact literal.proper other later
  dead link suffix := by
    rcases List.suffix_cons_iff.mp suffix with rfl | later
    · exact dead
    · exact literal.dead link later

theorem not_walksLink {link : Loc} (plain : fs.linkAt link = none) (k : Nat) (last : Loc) :
    ¬ fs.WalksLink k link last := by
  rintro ⟨target, linked, -⟩
  rw [plain] at linked
  cases linked

theorem literal_root : fs.Literal [] where
  proper _ mem := by cases mem
  dead link suffix := by
    rw [List.suffix_nil.mp suffix]
    refine not_walksLink ?_
    rw [linkAt, fs.root]

/-- A directory is where its path says. -/
theorem literal_of_dir : ∀ {path : Loc}, fs.entry path = some .dir → fs.Literal path := by
  intro path
  induction path with
  | nil => exact fun _ => literal_root
  | cons name path ih =>
    intro dir
    have here : fs.entry (name :: path) ≠ none := by simp [dir]
    refine (ih (fs.parent name path here)).cons (fs.proper name path here) (not_walksLink ?_)
    rw [linkAt, dir]

/-- By a literal path the kernel arrives there, if it arrives. -/
theorem walks_literal : ∀ {todo : List String} {done : Loc} {k : Nat} {last : Loc},
    fs.Literal (todo.reverse ++ done) → fs.Walks k todo done last →
    last = todo.reverse ++ done := by
  intro todo
  induction todo with
  | nil =>
    intro done k last _ walks
    exact (walks_nil walks).2
  | cons name todo ih =>
    intro done k last literal walks
    have whole : (name :: todo).reverse ++ done = todo.reverse ++ (name :: done) := by simp
    have proper : properName name = true := literal.proper name (by simp)
    rw [whole] at literal ⊢
    cases linked : fs.linkAt (name :: done) with
    | none =>
      obtain ⟨_, _, next⟩ := walks_into proper linked walks
      exact ih literal next
    | some target =>
      obtain ⟨_, _, _, _, leads, _⟩ := walks_link proper linked walks
      exact absurd leads (literal.dead _ (List.suffix_append _ _) _ _)

/-- What is located by a literal path is there. -/
theorem locate_literal {path : Loc} (literal : fs.Literal path)
    (located : fs.locate path = .ok last) : last = path := by
  obtain ⟨k, walks⟩ := walks_of_namei located
  have there := @walks_literal fs path.reverse [] k last
  rw [List.reverse_reverse, List.append_nil] at there
  exact there literal walks

/-! ## What `realpath` has resolved -/

/-- The path so far is literal, what is known of a link is right, a link whose target is not
known is being resolved, and whatever is being resolved goes on from the path in no more
steps than it takes as a whole. -/
structure Resolving (fs : FileSystem) (rest : List Part) (path : Loc) (seen : Seen) : Prop where
  literal : fs.Literal path
  known : ∀ link loc, seen.lookup link = some (some loc) →
    fs.Literal loc ∧ ∀ k last, fs.WalksLink k link last → last = loc
  pending : ∀ link, seen.lookup link = some none → .marker link ∈ rest
  inside : ∀ above link below, rest = above ++ .marker link :: below →
    ∀ k last, fs.WalksLink k link last → ∃ j ≤ k, fs.Walks j (names above) path last

variable {rest new : List Part} {path path' : Loc} {seen seen' : Seen} {name : String}

@[simp] theorem names_nil : names [] = [] := rfl

@[simp] theorem names_name (name : String) (rest : List Part) :
    names (.name name :: rest) = name :: names rest := rfl

@[simp] theorem names_marker (link : Loc) (rest : List Part) :
    names (.marker link :: rest) = names rest := rfl

@[simp] theorem names_append (a b : List Part) : names (a ++ b) = names a ++ names b :=
  List.filterMap_append

@[simp] theorem names_map (ns : List String) : names (ns.map .name) = ns := by
  induction ns with
  | nil => rfl
  | cons n ns ih => exact congrArg (n :: ·) ih

/-- A link that is met within itself leads nowhere: its end would be its own, sooner. -/
theorem Resolving.dead (sound : fs.Resolving (.name name :: rest) path seen)
    (proper : properName name = true) (met : seen.lookup (name :: path) = some none) :
    ∀ k last, ¬ fs.WalksLink k (name :: path) last := by
  intro k last leads
  have mem := sound.pending _ met
  obtain ⟨above, below, split⟩ := List.append_of_mem mem
  obtain ⟨j, le, walks⟩ := sound.inside above _ below split k last leads
  cases above with
  | nil => cases split
  | cons part above =>
    obtain ⟨rfl, -⟩ := List.cons.inj split
    have ⟨target, linked, _⟩ := leads
    obtain ⟨i, _, mid, sum, leads', -⟩ := walks_link proper linked walks
    have same := (walksLink_unique leads' leads).1
    omega

/-- The cases of a name. -/
theorem resolveName_cases (resolved : fs.resolveName name path seen = some (new, path', seen')) :
    ((name = "" ∨ name = ".") ∧ new = [] ∧ path' = path ∧ seen' = seen) ∨
      (name = ".." ∧ new = [] ∧ path' = path.tail ∧ seen' = seen) ∨
      (properName name = true ∧ fs.linkAt (name :: path) = none ∧ new = [] ∧
        path' = name :: path ∧ seen' = seen) ∨
      (properName name = true ∧ ∃ target, fs.linkAt (name :: path) = some target ∧
        ((∃ known, seen.lookup (name :: path) = some (some known) ∧ new = [] ∧ path' = known ∧
            seen' = seen) ∨
          (seen.lookup (name :: path) = some none ∧ new = [] ∧ path' = name :: path ∧
            seen' = seen) ∨
          (seen.lookup (name :: path) = none ∧
            new = (parts target).map .name ++ [.marker (name :: path)] ∧
            path' = base target path ∧ seen' = (name :: path, none) :: seen))) := by
  unfold resolveName at resolved
  split at resolved
  · next dot =>
    cases resolved
    exact .inl ⟨by simpa using dot, rfl, rfl, rfl⟩
  · next no_dot =>
    split at resolved
    · next up =>
      cases resolved
      exact .inr (.inl ⟨up, rfl, rfl, rfl⟩)
    · next no_up =>
      have proper : properName name = true := by simpa [properName, no_up] using no_dot
      split at resolved
      · cases resolved
      · dsimp only at resolved
        split at resolved
        · next plain =>
          cases resolved
          exact .inr (.inr (.inl ⟨proper, plain, rfl, rfl, rfl⟩))
        · next target linked =>
          refine .inr (.inr (.inr ⟨proper, target, linked, ?_⟩))
          split at resolved
          · next known found =>
            cases resolved
            exact .inl ⟨_, found, rfl, rfl, rfl⟩
          · next found =>
            cases resolved
            exact .inr (.inl ⟨found, rfl, rfl, rfl⟩)
          · next found =>
            cases resolved
            exact .inr (.inr ⟨found, rfl, rfl, rfl⟩)

theorem Literal.base {target : String} (literal : fs.Literal path) :
    fs.Literal (base target path) := by
  unfold Paths.base
  split
  · exact literal_root
  · exact literal

theorem resolveName_literal (sound : fs.Resolving (.name name :: rest) path seen)
    (resolved : fs.resolveName name path seen = some (new, path', seen')) : fs.Literal path' := by
  rcases resolveName_cases resolved with ⟨-, -, rfl, -⟩ | ⟨-, -, rfl, -⟩ |
    ⟨proper, plain, -, rfl, -⟩ | ⟨proper, target, linked, h⟩
  · exact sound.literal
  · exact sound.literal.tail
  · exact sound.literal.cons proper (not_walksLink plain)
  · rcases h with ⟨known, found, -, rfl, -⟩ | ⟨met, -, rfl, -⟩ | ⟨-, -, rfl, -⟩
    · exact (sound.known _ _ found).1
    · exact sound.literal.cons proper (sound.dead proper met)
    · exact sound.literal.base

/-- Where the kernel goes on by the name and more, it goes on from what `realpath` makes of
the name, in no more steps. -/
theorem resolveName_walks (sound : fs.Resolving (.name name :: rest) path seen)
    (resolved : fs.resolveName name path seen = some (new, path', seen'))
    (walks : fs.Walks k (name :: p) path last) :
    ∃ j ≤ k, fs.Walks j (names new ++ p) path' last := by
  rcases resolveName_cases resolved with ⟨dot, rfl, rfl, -⟩ | ⟨rfl, rfl, rfl, -⟩ |
    ⟨proper, plain, rfl, rfl, -⟩ | ⟨proper, target, linked, h⟩
  · obtain ⟨i, rfl, next⟩ := walks_dot dot walks
    exact ⟨i, by omega, next⟩
  · obtain ⟨i, rfl, next⟩ := walks_up walks
    exact ⟨i, by omega, next⟩
  · obtain ⟨i, rfl, next⟩ := walks_into proper plain walks
    exact ⟨i, by omega, next⟩
  · rcases h with ⟨known, found, rfl, rfl, -⟩ | ⟨met, -, -, -⟩ | ⟨-, rfl, rfl, -⟩
    · obtain ⟨i, j, mid, sum, leads, next⟩ := walks_link proper linked walks
      rw [(sound.known _ _ found).2 i mid leads] at next
      exact ⟨j, by omega, next⟩
    · obtain ⟨i, j, mid, sum, leads, next⟩ := walks_link proper linked walks
      exact absurd leads (sound.dead proper met i mid)
    · cases walks with
      | stay _ dot =>
        rw [not_proper_dot dot] at proper
        cases proper
      | up => cases proper
      | into _ _ plain =>
        rw [linked] at plain
        cases plain
      | @link k _ target' _ _ _ _ _ linked' next =>
        rw [linked] at linked'
        cases linked'
        exact ⟨k, by omega, by simpa using next⟩

theorem lookup_seen {link other : Loc} {value : Option Loc} :
    List.lookup link ((other, value) :: seen) =
      if link = other then some value else seen.lookup link := by
  rw [List.lookup_cons]
  by_cases same : link = other
  · simp [same]
  · simp [same, beq_eq_false_iff_ne.mpr same]

/-- The only marker behind names is the last part. -/
theorem split_at_marker {ns : List String} {link link' : Loc} {above below : List Part}
    (split : ns.map Part.name ++ [.marker link] = above ++ .marker link' :: below) :
    link' = link ∧ above = ns.map .name := by
  have unnamed : Part.marker link' ∉ ns.map Part.name := by simp
  rcases List.append_eq_append_iff.mp split with ⟨inner, rfl, last⟩ | ⟨inner, names_eq, last⟩
  · cases inner with
    | nil =>
      cases last
      exact ⟨rfl, List.append_nil _⟩
    | cons part inner => simp at last
  · cases inner with
    | nil =>
      cases last
      exact ⟨rfl, by rw [names_eq, List.append_nil]⟩
    | cons part inner =>
      obtain ⟨rfl, -⟩ := List.cons.inj last
      exact absurd (names_eq ▸ by simp) unnamed

theorem resolving_name (sound : fs.Resolving (.name name :: rest) path seen)
    (resolved : fs.resolveName name path seen = some (new, path', seen')) :
    fs.Resolving (new ++ rest) path' seen' := by
  have onward : ∀ {above : List Part} {link : Loc} {below : List Part},
      rest = above ++ .marker link :: below → ∀ k last, fs.WalksLink k link last →
        ∃ j ≤ k, fs.Walks j (names (new ++ above)) path' last := by
    intro above link below split k last leads
    obtain ⟨j, le, walks⟩ := sound.inside (.name name :: above) link below (by rw [split]; rfl)
      k last leads
    obtain ⟨i, le', walks'⟩ := resolveName_walks sound resolved walks
    exact ⟨i, by omega, by rwa [names_append]⟩
  have waiting : ∀ {link : Loc}, seen.lookup link = some none → .marker link ∈ rest := by
    intro link met
    rcases List.mem_cons.mp (sound.pending link met) with same | later
    · cases same
    · exact later
  -- either nothing is pushed, or a link with its marker
  have pushed : (new = [] ∧ seen' = seen) ∨ ∃ target,
      fs.linkAt (name :: path) = some target ∧ path' = base target path ∧
      new = (parts target).map .name ++ [.marker (name :: path)] ∧
      seen' = (name :: path, none) :: seen := by
    rcases resolveName_cases resolved with ⟨-, none, -, same⟩ | ⟨-, none, -, same⟩ |
      ⟨-, -, none, -, same⟩ | ⟨-, target, linked, h⟩
    · exact .inl ⟨none, same⟩
    · exact .inl ⟨none, same⟩
    · exact .inl ⟨none, same⟩
    · rcases h with ⟨_, -, none, -, same⟩ | ⟨-, none, -, same⟩ | ⟨-, new_eq, path_eq, seen_eq⟩
      · exact .inl ⟨none, same⟩
      · exact .inl ⟨none, same⟩
      · exact .inr ⟨target, linked, path_eq, new_eq, seen_eq⟩
  refine ⟨resolveName_literal sound resolved, ?_, ?_, ?_⟩
  · intro link loc found
    rcases pushed with ⟨-, rfl⟩ | ⟨_, -, -, -, rfl⟩
    · exact sound.known link loc found
    · rw [lookup_seen] at found
      split at found
      · cases found
      · exact sound.known link loc found
  · intro link met
    rcases pushed with ⟨-, rfl⟩ | ⟨_, -, -, rfl, rfl⟩
    · exact List.mem_append_right new (waiting met)
    · rw [lookup_seen] at met
      split at met
      · next same => simp [same]
      · exact List.mem_append_right _ (waiting met)
  · intro above link below split
    rcases List.append_eq_append_iff.mp split with
      ⟨above', rfl, rest_eq⟩ | ⟨inner, new_eq, below_eq⟩
    · exact onward rest_eq
    · cases inner with
      | nil =>
        rw [List.append_nil] at new_eq
        subst new_eq
        have none_above : rest = [] ++ .marker link :: below := below_eq.symm
        simpa using onward none_above
      | cons part inner =>
        obtain ⟨rfl, -⟩ := List.cons.inj below_eq
        rcases pushed with ⟨rfl, -⟩ | ⟨target, linked, rfl, rfl, -⟩
        · simp at new_eq
        · obtain ⟨rfl, rfl⟩ := split_at_marker new_eq
          rintro k last ⟨target', linked', walks⟩
          rw [linked] at linked'
          cases linked'
          exact ⟨k, Nat.le_refl k, by rwa [names_map]⟩

theorem resolving_marker {link : Loc} (sound : fs.Resolving (.marker link :: rest) path seen) :
    fs.Resolving rest path ((link, some path) :: seen) := by
  refine ⟨sound.literal, ?_, ?_, ?_⟩
  · intro other loc found
    rw [lookup_seen] at found
    split at found
    · next same =>
      cases found
      subst same
      refine ⟨sound.literal, fun k last leads => ?_⟩
      obtain ⟨j, -, walks⟩ := sound.inside [] other rest rfl k last leads
      exact (walks_nil walks).2
    · exact sound.known other loc found
  · intro other met
    rw [lookup_seen] at met
    split at met
    · cases met
    · next differs =>
      rcases List.mem_cons.mp (sound.pending other met) with same | later
      · cases same
        exact absurd rfl differs
      · exact later
  · intro above other below split k last leads
    exact sound.inside (.marker link :: above) other below (by rw [split]; rfl) k last leads

/-- What is returned is literal, and where the kernel arrives. -/
theorem realpathFrom_spec : ∀ {fuel : Nat} {rest : List Part} {path : Loc} {seen : Seen} {r : Loc},
    fs.Resolving rest path seen → fs.realpathFrom fuel rest path seen = some r →
    fs.Literal r ∧ ∀ k last, fs.Walks k (names rest) path last → last = r := by
  intro fuel
  induction fuel with
  | zero =>
    intro rest path seen r _ returned
    simp [realpathFrom] at returned
  | succ fuel ih =>
    intro rest path seen r sound returned
    cases rest with
    | nil =>
      rw [realpathFrom, Option.some.injEq] at returned
      subst returned
      exact ⟨sound.literal, fun k last walks => (walks_nil walks).2⟩
    | cons part rest =>
      cases part with
      | marker link =>
        rw [realpathFrom] at returned
        have spec := ih (resolving_marker sound) returned
        exact spec
      | name name =>
        rw [realpathFrom] at returned
        split at returned
        · cases returned
        · next new path' seen' resolved =>
          obtain ⟨literal, arrives⟩ := ih (resolving_name sound resolved) returned
          refine ⟨literal, fun k last walks => ?_⟩
          obtain ⟨j, -, next⟩ := resolveName_walks sound resolved walks
          exact arrives j last (by rwa [names_append])

theorem resolving_start {p : List String} (literal : fs.Literal path) :
    fs.Resolving (p.map .name) path [] where
  literal := literal
  known _ _ found := by cases found
  pending _ found := by cases found
  inside above link below split := by
    have mem : Part.marker link ∈ p.map Part.name := split ▸ by simp
    simp at mem

variable {fuel : Nat} {cwd r : Loc} {text : String}

/-- What `realpath` returns is literal. -/
theorem realpath_literal (dir : fs.entry cwd = some .dir)
    (returned : fs.realpath fuel cwd text = some r) : fs.Literal r :=
  (realpathFrom_spec (resolving_start (literal_of_dir dir).base) returned).1

/-- Where the kernel arrives by a path, `realpath` says so. -/
theorem walks_realpath (dir : fs.entry cwd = some .dir)
    (returned : fs.realpath fuel cwd text = some r)
    (walks : fs.Walks k (parts text) (base text cwd) last) : last = r := by
  have arrives := (realpathFrom_spec (resolving_start (literal_of_dir dir).base) returned).2
  rw [names_map] at arrives
  exact arrives k last walks

/-- Where the kernel arrives by the path that `realpath` returns, it arrives there. -/
theorem locate_realpath (dir : fs.entry cwd = some .dir)
    (returned : fs.realpath fuel cwd text = some r) (located : fs.locate r = .ok last) : last = r :=
  locate_literal (realpath_literal dir returned) located

/-! ## Directories that are made -/

/-- There may be more directories, but no other links. -/
structure Extends (fs fs' : FileSystem) : Prop where
  linkAt : fs'.linkAt = fs.linkAt
  dir : ∀ loc, fs.entry loc = some .dir → fs'.entry loc = some .dir

theorem Extends.refl (fs : FileSystem) : fs.Extends fs := ⟨rfl, fun _ dir => dir⟩

theorem Extends.trans {fs fs' fs'' : FileSystem} (first : fs.Extends fs')
    (second : fs'.Extends fs'') : fs.Extends fs'' where
  linkAt := second.linkAt.trans first.linkAt
  dir loc dir := second.dir loc (first.dir loc dir)

/-- `realpath` looks at links only. -/
theorem Extends.realpathFrom {fs' : FileSystem} (more : fs.Extends fs') :
    ∀ (fuel : Nat) (rest : List Part) (path : Loc) (seen : Seen),
      fs'.realpathFrom fuel rest path seen = fs.realpathFrom fuel rest path seen := by
  have name_eq : fs'.resolveName = fs.resolveName := by
    funext name path seen
    rw [resolveName, resolveName, more.linkAt]
  intro fuel
  induction fuel with
  | zero =>
    intro rest path seen
    rfl
  | succ fuel ih =>
    intro rest path seen
    cases rest with
    | nil => rfl
    | cons part rest =>
      cases part with
      | marker link => exact ih rest path _
      | name name =>
        rw [FileSystem.realpathFrom, FileSystem.realpathFrom, name_eq]
        split
        · rfl
        · exact ih _ _ _

theorem Extends.realpath {fs' : FileSystem} (more : fs.Extends fs') :
    fs'.realpath fuel cwd text = fs.realpath fuel cwd text :=
  more.realpathFrom _ _ _ _

variable {fs' : FileSystem} {fault : Access → Loc → Option Errno} {e : Errno}

theorem putDir_extends {loc : Loc} (dir : fs.entry loc = some .dir)
    (proper : properName name = true) (missing : fs.entry (name :: loc) = none) :
    fs.Extends (fs.putDir name loc dir proper) where
  linkAt := by
    funext other
    by_cases same : other = name :: loc
    · simp [FileSystem.linkAt, putDir, same, missing]
    · simp [FileSystem.linkAt, putDir, same]
  dir other there := by
    show (if other = name :: loc then some .dir else fs.entry other) = some .dir
    rw [there, ite_self]

theorem mkdir_extends {loc : Loc} (made : fs.mkdir fault loc = .ok fs') : fs.Extends fs' := by
  cases loc with
  | nil => cases made
  | cons name loc =>
    rw [mkdir] at made
    split at made
    · cases made
    · next last located =>
      split at made
      · next dir =>
        split at made
        · next proper =>
          split at made
          · cases made
          · next missing =>
            split at made
            · cases made
            · cases made
              exact putDir_extends dir proper (not_not.mp missing)
        · cases made
      · split at made
        · cases made
        · cases made

theorem existOk_extends {loc : Loc} (made : fs.existOk loc e = .ok fs') : fs.Extends fs' := by
  rw [existOk] at made
  split at made
  · cases made
    exact .refl fs
  · cases made

theorem mkdirParents_extends : ∀ {loc : Loc} {fs fs' : FileSystem},
    mkdirParents fault fs loc = .ok fs' → fs.Extends fs' := by
  intro loc
  induction loc with
  | nil =>
    intro fs fs' made
    exact existOk_extends made
  | cons name loc ih =>
    intro fs fs' made
    rw [mkdirParents] at made
    split at made
    · next made_now =>
      cases made
      exact mkdir_extends made_now
    · split at made
      · cases made
      · next above made_above =>
        refine (ih made_above).trans ?_
        split at made
        · next made_now =>
          cases made
          exact mkdir_extends made_now
        · cases made
        · exact existOk_extends made
    · exact existOk_extends made

/-! ## Files that are opened -/

theorem openRead_located {loc : Loc} {content : ByteArray}
    (opened : fs.openRead fault loc = .ok (last, content)) : fs.locate loc = .ok last := by
  rw [openRead] at opened
  split at opened
  · cases opened
  · next located =>
    split at opened <;> cases opened
    exact located

theorem openWrite_located {loc : Loc} (opened : fs.openWrite fault loc = .ok last) :
    fs.locate loc = .ok last := by
  rw [openWrite] at opened
  split at opened
  · cases opened
  · next located =>
    split at opened
    · cases opened
    · split at opened
      · cases opened
      · cases opened
        exact located

/-- What is read by the path that `realpath` returns is there. -/
theorem openRead_realpath {content : ByteArray} (dir : fs.entry cwd = some .dir)
    (returned : fs.realpath fuel cwd text = some r)
    (opened : fs.openRead fault r = .ok (last, content)) : last = r :=
  locate_realpath dir returned (openRead_located opened)

/-- So is what is written, when the directories above it are made first. -/
theorem openWrite_realpath (dir : fs.entry cwd = some .dir)
    (returned : fs.realpath fuel cwd text = some r) {loc : Loc}
    (made : mkdirParents fault fs loc = .ok fs') (opened : fs'.openWrite fault r = .ok last) :
    last = r := by
  have more := mkdirParents_extends made
  exact locate_realpath (more.dir cwd dir) (more.realpath.trans returned)
    (openWrite_located opened)

end

end FileSystem

end Paths
