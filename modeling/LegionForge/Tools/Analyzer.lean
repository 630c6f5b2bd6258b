import LegionForge.Lib.Walk

/-!
# The static analysis of a crystallized function

`_ast_analyze` walks the syntax tree of the function and looks at the calls, the subscripts
and the imports, each in the shape it expects. What it forbids can be had in other shapes:
an attribute that is read and not called, a name that is bound to another and called by
that, a function that is imported by itself.

`no_findings_sound_iff` says that these are all: without them a tree in which nothing is
found is sound.
-/

namespace LegionForge.Tools

/-! ## Syntax trees -/

inductive ExprContext where
  | load
  | store
  | del
  deriving DecidableEq, Repr

inductive Constant where
  | str (value : String)
  /-- A number, bytes, a truth value, `None` or an ellipsis. -/
  | other
  deriving DecidableEq, Repr

/-- An `alias` of an import statement. -/
structure ImportAlias where
  name : String
  asname : Option String
  deriving DecidableEq, Repr

/-- The classes of `ast` whose fields nobody asks for. -/
inductive NodeKind where
  | module | asyncFunctionDef | classDef | returnStmt | deleteStmt | typeAlias | augAssign
  | bareAnnotation | forStmt | asyncFor | whileStmt | ifStmt | withStmt | asyncWith
  | matchStmt | raiseStmt | tryStmt | tryStar | assertStmt | globalStmt | nonlocalStmt | exprStmt
  | passStmt | breakStmt | continueStmt
  | boolOp | binOp | unaryOp | lambda | ifExp | dict | set | listComp | setComp
  | dictComp | generatorExp | await | yieldExpr | yieldFrom | compare | formattedValue
  | interpolation | joinedStr | templateStr | starred | list | tuple | slice
  | comprehension | exceptHandler | arguments | arg | keyword | withitem | matchCase
  | matchValue | matchSingleton | matchSequence | matchMapping | matchClass | matchStar
  | matchAs | matchOr | typeVar | paramSpec | typeVarTuple
  deriving DecidableEq, Repr

/-- A node with its fields, in the order of `ast`. -/
inductive Node where
  | name (id : String) (ctx : ExprContext)
  | attrOf (value : Node) (attr : String) (ctx : ExprContext)
  | call (lineno : Nat) (func : Node) (args keywords : List Node)
  | subscript (lineno : Nat) (value slice : Node)
  | constant (value : Constant)
  | importStmt (names : List ImportAlias)
  | importFrom (module : Option String) (names : List ImportAlias)
  | functionDef (name : String) (fields : List Node)
  | assign (targets : List Node) (value : Node)
  | annAssign (target annotation value : Node)
  | namedExpr (target value : Node)
  | other (kind : NodeKind) (fields : List Node)

namespace Node

/-- `ast.iter_child_nodes` -/
def children : Node → List Node
  | .name _ _ | .constant _ | .importStmt _ | .importFrom _ _ => []
  | .attrOf value _ _ => [value]
  | .call _ func args keywords => func :: (args ++ keywords)
  | .subscript _ value slice => [value, slice]
  | .functionDef _ fields | .other _ fields => fields
  | .assign targets value => targets ++ [value]
  | .annAssign target annotation value => [target, annotation, value]
  | .namedExpr target value => [target, value]

mutual

/-- How many nodes there are. -/
def weight : Node → Nat
  | .name _ _ | .constant _ | .importStmt _ | .importFrom _ _ => 1
  | .attrOf value _ _ => 1 + value.weight
  | .call _ func args keywords => 1 + (func.weight + (weights args + weights keywords))
  | .subscript _ value slice => 1 + (value.weight + slice.weight)
  | .functionDef _ fields | .other _ fields => 1 + weights fields
  | .assign targets value => 1 + (weights targets + value.weight)
  | .annAssign target kind value => 1 + (target.weight + (kind.weight + value.weight))
  | .namedExpr target value => 1 + (target.weight + value.weight)

def weights : List Node → Nat
  | [] => 0
  | n :: rest => n.weight + weights rest

end

/-- `ast.walk` -/
def walk (t : Node) : List Node := Tree.walkFrom children t.weight [t]

end Node

/-! ## The tables -/

/-- `_FORBIDDEN_NAMES` -/
def forbiddenNames : List String :=
  ["exec", "eval", "compile", "__import__", "breakpoint", "input", "open", "vars", "dir",
    "globals", "locals", "type"]

/-- `_FORBIDDEN_ATTRS` -/
def forbiddenAttrs : List String :=
  ["system", "popen", "Popen", "call", "run", "execl", "execle", "execlp", "execlpe", "execv",
    "execve", "execvp", "execvpe", "spawnl", "spawnle", "spawnlp", "spawnlpe", "spawnv",
    "spawnve", "spawnvp", "spawnvpe", "fork", "forkpty", "setuid", "setgid", "seteuid",
    "setegid", "__bases__", "__subclasses__", "__mro__", "__class__", "__dict__", "modules"]

/-- `_BANNED_STDLIB_MODULES` -/
def bannedStdlibModules : List String :=
  ["subprocess", "multiprocessing", "socket", "socketserver", "signal", "smtplib", "ftplib",
    "imaplib", "poplib", "telnetlib", "ssl", "xmlrpc", "http", "urllib", "email", "ctypes",
    "cffi", "pty", "tty", "termios", "grp", "pwd", "spwd", "crypt", "sqlite3", "dbm", "shelve",
    "pickle", "pickletools", "marshal", "mmap", "msvcrt", "winreg", "winsound", "posix", "nt",
    "resource", "syslog"]

/-- `_STDLIB_MODULES` -/
def stdlibModules : List String :=
  ["abc", "ast", "base64", "binascii", "bisect", "calendar", "cmath", "collections",
    "contextlib", "copy", "csv", "dataclasses", "datetime", "decimal", "difflib", "enum",
    "fnmatch", "fractions", "functools", "gc", "glob", "gzip", "hashlib", "heapq", "hmac",
    "html", "inspect", "io", "ipaddress", "itertools", "json", "keyword", "linecache", "locale",
    "logging", "math", "mimetypes", "numbers", "operator", "os", "os.path", "pathlib",
    "platform", "pprint", "queue", "random", "re", "shlex", "shutil", "stat", "statistics",
    "string", "struct", "sys", "tarfile", "tempfile", "textwrap", "threading", "time", "timeit",
    "traceback", "typing", "unicodedata", "unittest", "uuid", "warnings", "weakref", "xml",
    "zipfile", "zipimport", "zlib", "__future__"]

/-! ## `_ast_analyze` -/

/-- What is added to the result at a node. -/
structure NodeFindings where
  forbidden : List String := []
  undeclared : List String := []
  risks : List String := []
  branches : Nat := 0

/-- `name.split(".")[0]` -/
def topModule (name : String) : String := String.ofList (name.toList.takeWhile (· ≠ '.'))

/-- The check of an imported module. -/
def moduleFindings (name : String) : NodeFindings :=
  if topModule name ∈ bannedStdlibModules then
    { forbidden := [s!"Banned stdlib module import: '{name}' " ++
        "(network/process/IO access not permitted)"] }
  else if topModule name ∉ stdlibModules then { undeclared := [name] }
  else {}

/-- The check of a call of `getattr`. -/
def getattrFindings (lineno : Nat) : List Node → NodeFindings
  | _ :: .constant (.str value) :: _ =>
    if value ∈ forbiddenAttrs ∨ value ∈ forbiddenNames then
      { forbidden := [s!"getattr bypass detected: getattr(..., '{value}') at line {lineno}"] }
    else {}
  | _ :: _ :: _ =>
    { risks := ["Dynamic getattr: second argument is not a string literal " ++
        s!"at line {lineno} — cannot statically verify attribute"] }
  | _ => {}

/-- Branching nodes. -/
def NodeKind.branches : NodeKind → Bool
  | .ifStmt | .forStmt | .whileStmt | .exceptHandler | .withStmt | .assertStmt => true
  | _ => false

/-- The body of the loop over the nodes. -/
def Node.findings : Node → NodeFindings
  | .call lineno (.name id _) args _ =>
    if id ∈ forbiddenNames then
      { forbidden := [s!"Forbidden call: {id}() at line {lineno}"] }
    else if id = "getattr" then getattrFindings lineno args
    else {}
  | .call lineno (.attrOf _ attr _) _ _ =>
    if attr ∈ forbiddenAttrs then
      { forbidden := [s!"Forbidden call: .{attr}() at line {lineno}"] }
    else {}
  | .subscript lineno (.attrOf _ attr _) _ =>
    if attr = "modules" then
      { forbidden := [s!"sys.modules subscript access at line {lineno} — " ++
          "imports restricted module without import statement"] }
    else {}
  | .subscript lineno (.name id _) _ =>
    if id = "__builtins__" then
      { forbidden := [s!"__builtins__ subscript access at line {lineno} — " ++
          "bypasses forbidden-name check via dict access"] }
    else {}
  | .subscript lineno (.call _ (.name id _) _ _) _ =>
    if id = "globals" ∨ id = "locals" ∨ id = "vars" then
      { forbidden := [s!"Dynamic builtin access via {id}()[...] " ++
          s!"at line {lineno} — bypasses forbidden-name check"] }
    else {}
  | .importStmt names =>
    { forbidden := names.flatMap fun a => (moduleFindings a.name).forbidden
      undeclared := names.flatMap fun a => (moduleFindings a.name).undeclared }
  | .importFrom (some module) _ => if module = "" then {} else moduleFindings module
  | .other kind _ => { branches := if kind.branches then 1 else 0 }
  | _ => {}

/-- What `_ast_analyze` returns. -/
structure StaticAnalysis where
  forbiddenConstructs : List String
  undeclaredDependencies : List String
  undeclaredSideEffects : List String
  cyclomaticComplexity : Nat
  linesOfCode : Nat
  parseError : Option String
  riskFlags : List String

/-- The result for a tree. -/
def analyzeTree (linesOfCode : Nat) (t : Node) : StaticAnalysis where
  forbiddenConstructs := t.walk.flatMap fun n => n.findings.forbidden
  undeclaredDependencies := t.walk.flatMap fun n => n.findings.undeclared
  undeclaredSideEffects := []
  cyclomaticComplexity := 1 + (t.walk.map fun n => n.findings.branches).sum
  linesOfCode := linesOfCode
  parseError := none
  riskFlags := t.walk.flatMap fun n => n.findings.risks

/-! ## What a sound tree is -/

/-- The node is further down in the tree, or the tree itself. -/
abbrev Node.In (n t : Node) : Prop := Tree.Below Node.children n t

mutual

/-- The names an assignment binds, each with what it binds it to; sequences are assigned
element by element. -/
def Node.binds : Node → Node → List (String × Node)
  | .name id _, value => [(id, value)]
  | .other k targets, .other k' values =>
    if (k = .tuple ∨ k = .list) ∧ (k' = .tuple ∨ k' = .list) then bindsEach targets values
    else []
  | _, _ => []

def bindsEach : List Node → List Node → List (String × Node)
  | target :: targets, value :: values => target.binds value ++ bindsEach targets values
  | _, _ => []

end

/-- What a statement or an expression assigns. -/
def Node.assigned : Node → List (String × Node)
  | .assign targets value => targets.flatMap (·.binds value)
  | .annAssign target _ value | .namedExpr target value => target.binds value
  | _ => []

/-- The function or module may not be imported by its name. -/
def forbiddenImport (name : String) : Bool :=
  forbiddenNames.contains name || forbiddenAttrs.contains name ||
    bannedStdlibModules.contains name

/-- The name under which an import binds. -/
def ImportAlias.bound (a : ImportAlias) : String := a.asname.getD a.name

/-- In the tree the expression stands for a forbidden function. -/
inductive ForbiddenRef (t : Node) : Node → Prop
  | builtin {id : String} {ctx : ExprContext} (forbidden : id ∈ forbiddenNames) :
      ForbiddenRef t (.name id ctx)
  | ofBuiltins {m id : String} {ctx ctx' : ExprContext}
      (module : m = "builtins" ∨ m = "__builtins__")
      (forbidden : id ∈ forbiddenNames) : ForbiddenRef t (.attrOf (.name m ctx) id ctx')
  | ofModule {value : Node} {attr : String} {ctx : ExprContext}
      (forbidden : attr ∈ forbiddenAttrs) :
      ForbiddenRef t (.attrOf value attr ctx)
  | imported {module : Option String} {names : List ImportAlias} {a : ImportAlias}
      {ctx : ExprContext} (stmt : (Node.importFrom module names).In t) (mem : a ∈ names)
      (forbidden : forbiddenImport a.name = true) : ForbiddenRef t (.name a.bound ctx)
  | assigned {n value : Node} {id : String} {ctx : ExprContext} (stmt : n.In t)
      (binds : (id, value) ∈ n.assigned) (forbidden : ForbiddenRef t value) :
      ForbiddenRef t (.name id ctx)

/-- The statement imports a forbidden module, or a forbidden function; from `os` a star
imports some. -/
def Node.importsForbidden : Node → Bool
  | .importStmt names => names.any fun a => bannedStdlibModules.contains (topModule a.name)
  | .importFrom module names =>
    module.any (fun m => bannedStdlibModules.contains (topModule m)) ||
      names.any fun a => forbiddenImport a.name || (a.name = "*" && module = some "os")
  | _ => false

structure SoundTree (t : Node) : Prop where
  attributes : ∀ value attr, (Node.attrOf value attr .load).In t → attr ∉ forbiddenAttrs
  calls : ∀ lineno func args keywords, (Node.call lineno func args keywords).In t →
    ¬ ForbiddenRef t func
  imports : ∀ n : Node, n.In t → n.importsForbidden = false

/-! ## What is not looked at -/

/-- What is asked for by way of the attribute, where the attribute itself is not looked at. -/
def Node.object : Node → Node
  | .attrOf value _ _ => value
  | n => n

/-- The nodes below, without an attribute that is called or the `.modules` of a subscript. -/
def Node.uncalled : Node → List Node
  | .call _ func args keywords => func.object :: (args ++ keywords)
  | .subscript _ (.attrOf value attr ctx) slice =>
    if attr = "modules" then [value, slice] else [.attrOf value attr ctx, slice]
  | n => n.children

/-- The call names what it calls as the analysis expects. -/
def Node.direct : Node → Bool
  | .name id _ => forbiddenNames.contains id
  | .attrOf _ attr _ => forbiddenAttrs.contains attr
  | _ => false

/-- A shape that escapes. -/
inductive Unseen (t : Node) : Prop
  /-- An attribute that is read and not called. -/
  | read {value : Node} {attr : String} (forbidden : attr ∈ forbiddenAttrs)
      (below : Tree.Below Node.uncalled (.attrOf value attr .load) t)
  /-- A call by another name. -/
  | call {lineno : Nat} {func : Node} {args keywords : List Node}
      (called : (Node.call lineno func args keywords).In t) (forbidden : ForbiddenRef t func)
      (indirect : func.direct = false)
  /-- A forbidden name that is imported from a module that is not banned. -/
  | importFrom {module : Option String} {names : List ImportAlias}
      (stmt : (Node.importFrom module names).In t)
      (top : module.any (fun m => bannedStdlibModules.contains (topModule m)) = false)
      (forbidden : (Node.importFrom module names).importsForbidden = true)

section
variable {t : Node}

/-! ## The walk -/

theorem weights_eq (ns : List Node) : Node.weights ns = (ns.map Node.weight).sum := by
  induction ns with
  | nil => rfl
  | cons n ns ih => rw [Node.weights, ih, List.map_cons, List.sum_cons]

theorem Node.weighs : Tree.Weighs Node.children Node.weight := by
  intro n
  cases n with
  | name | constant | importStmt | importFrom => rfl
  | functionDef name fields => rw [Node.weight, weights_eq, Node.children]
  | other kind fields => rw [Node.weight, weights_eq, Node.children]
  | attrOf value | subscript lineno value slice | annAssign target annotation value
  | namedExpr target value => simp [Node.weight, Node.children]
  | call lineno func args keywords => simp [Node.weight, Node.children, weights_eq]
  | assign targets value => simp [Node.weight, Node.children, weights_eq]

theorem mem_walk {n : Node} : n ∈ t.walk ↔ n.In t := Tree.mem_walk_iff Node.weighs

/-- The analysis forbids something at a node of the tree. -/
def Reported (t : Node) : Prop := ∃ n : Node, n.In t ∧ n.findings.forbidden ≠ []

theorem nothing_forbidden_iff {linesOfCode : Nat} :
    (analyzeTree linesOfCode t).forbiddenConstructs = [] ↔ ¬ Reported t := by
  simp only [analyzeTree, List.flatMap_eq_nil_iff, mem_walk, Reported]
  push Not
  rfl

/-! ## Attributes -/

/-- The shapes in which an attribute is looked at. -/
inductive LookedAt : Node → Node → Prop
  | func {lineno : Nat} {value : Node} {attr : String} {ctx : ExprContext}
      {args keywords : List Node} :
      LookedAt (.attrOf value attr ctx) (.call lineno (.attrOf value attr ctx) args keywords)
  | modules {lineno : Nat} {value slice : Node} {ctx : ExprContext} :
      LookedAt (.attrOf value "modules" ctx)
        (.subscript lineno (.attrOf value "modules" ctx) slice)

theorem uncalled_cases {c n : Node} (mem : c ∈ n.children) :
    c ∈ n.uncalled ∨ LookedAt c n ∧ ∀ d ∈ c.uncalled, d ∈ n.uncalled := by
  cases n with
  | call lineno func args keywords =>
    cases func with
    | attrOf value attr ctx =>
      rcases List.mem_cons.mp mem with rfl | later
      · refine .inr ⟨.func, fun d hd => ?_⟩
        rw [List.mem_singleton.mp hd]
        exact List.mem_cons_self
      · exact .inl (List.mem_cons_of_mem _ later)
    | _ => exact .inl mem
  | subscript lineno value slice =>
    cases value with
    | attrOf value attr ctx =>
      by_cases same : attr = "modules"
      · cases same
        rcases List.mem_cons.mp mem with rfl | later
        · refine .inr ⟨.modules, fun d hd => ?_⟩
          rw [List.mem_singleton.mp hd]
          simp [Node.uncalled]
        · exact .inl (by simpa [Node.uncalled] using .inr (List.mem_singleton.mp later))
      · exact .inl (by simpa [Node.uncalled, same, Node.children] using mem)
    | _ => exact .inl mem
  | _ => exact .inl mem

/-- A node of the tree is reached without the attributes that are looked at, or is one. -/
theorem uncalled_or_lookedAt {m : Node} (below : m.In t) :
    Tree.Below Node.uncalled m t ∨ ∃ n : Node, n.In t ∧ LookedAt m n := by
  induction below with
  | refl => exact .inl (.refl m)
  | @child c n mem below ih =>
    rcases ih with reached | ⟨r, inside, looked⟩
    · rcases uncalled_cases mem with direct | ⟨looked, onward⟩
      · exact .inl (.child direct reached)
      · cases reached with
        | refl => exact .inr ⟨n, .refl n, looked⟩
        | child at_child reached => exact .inl (.child (onward _ at_child) reached)
    · exact .inr ⟨r, .child mem inside, looked⟩

theorem in_of_mem_uncalled {c n : Node} (mem : c ∈ n.uncalled) : c.In n := by
  have child : ∀ {c n : Node}, c ∈ n.children → c.In n := fun mem => .child mem (.refl _)
  cases n with
  | call lineno func args keywords =>
    rcases List.mem_cons.mp mem with rfl | later
    · cases func with
      | attrOf value attr ctx =>
        exact .child List.mem_cons_self (child List.mem_cons_self)
      | _ => exact child List.mem_cons_self
    · exact child (List.mem_cons_of_mem _ later)
  | subscript lineno value slice =>
    cases value with
    | attrOf value attr ctx =>
      by_cases same : attr = "modules"
      · have mem : c = value ∨ c = slice := by simpa [Node.uncalled, same] using mem
        rcases mem with rfl | rfl
        · exact .child List.mem_cons_self (child List.mem_cons_self)
        · exact child (List.mem_cons_of_mem _ List.mem_cons_self)
      · exact child (by simpa [Node.uncalled, same, Node.children] using mem)
    | _ => exact child mem
  | _ => exact child mem

theorem in_of_uncalled {m : Node} (below : Tree.Below Node.uncalled m t) : m.In t := by
  induction below with
  | refl => exact .refl m
  | child mem _ ih => exact ih.trans (in_of_mem_uncalled mem)

theorem reported_of_lookedAt {value n : Node} {attr : String} {ctx : ExprContext}
    (forbidden : attr ∈ forbiddenAttrs) (looked : LookedAt (.attrOf value attr ctx) n) :
    n.findings.forbidden ≠ [] := by
  cases looked with
  | func => simp [Node.findings, forbidden]
  | modules => simp [Node.findings]

/-! ## Calls and imports -/

theorem reported_of_direct {lineno : Nat} {func : Node} {args keywords : List Node}
    (direct : func.direct = true) :
    (Node.call lineno func args keywords).findings.forbidden ≠ [] := by
  cases func with
  | name id ctx =>
    have forbidden : id ∈ forbiddenNames := by simpa [Node.direct] using direct
    simp [Node.findings, forbidden]
  | attrOf value attr ctx =>
    have forbidden : attr ∈ forbiddenAttrs := by simpa [Node.direct] using direct
    simp [Node.findings, forbidden]
  | _ => cases direct

theorem moduleFindings_of_banned {name : String} (banned : topModule name ∈ bannedStdlibModules) :
    (moduleFindings name).forbidden ≠ [] := by
  simp [moduleFindings, banned]

/-- A forbidden import is reported, or is one by name from a module that is not banned. -/
theorem reported_or_byName {n : Node} (forbidden : n.importsForbidden = true) :
    n.findings.forbidden ≠ [] ∨ ∃ module names, n = .importFrom module names ∧
      module.any (fun m => bannedStdlibModules.contains (topModule m)) = false := by
  cases n with
  | importStmt names =>
    obtain ⟨a, mem, banned⟩ := List.any_eq_true.mp forbidden
    have found := moduleFindings_of_banned (List.contains_iff_mem.mp banned)
    refine .inl fun none => found ?_
    exact List.flatMap_eq_nil_iff.mp none a mem
  | importFrom module names =>
    cases top : module.any (fun m => bannedStdlibModules.contains (topModule m)) with
    | false => exact .inr ⟨module, names, rfl, top⟩
    | true =>
      obtain ⟨m, rfl, banned⟩ := Option.any_eq_true _ _ |>.mp top
      have some_name : m ≠ "" := by
        rintro rfl
        exact absurd banned (by decide)
      refine .inl ?_
      simp only [Node.findings, if_neg some_name]
      exact moduleFindings_of_banned (List.contains_iff_mem.mp banned)
  | _ => cases forbidden

/-! ## Soundness -/

theorem not_sound_of_unseen (unseen : Unseen t) : ¬ SoundTree t := by
  intro sound
  cases unseen with
  | read forbidden below => exact sound.attributes _ _ (in_of_uncalled below) forbidden
  | call called forbidden _ => exact sound.calls _ _ _ _ called forbidden
  | importFrom stmt _ forbidden =>
    rw [sound.imports _ stmt] at forbidden
    cases forbidden

theorem sound_of_nothing_unseen (quiet : ¬ Reported t) (seen : ¬ Unseen t) : SoundTree t where
  attributes value attr below forbidden := by
    rcases uncalled_or_lookedAt below with reached | ⟨n, inside, looked⟩
    · exact seen (.read forbidden reached)
    · exact quiet ⟨n, inside, reported_of_lookedAt forbidden looked⟩
  calls lineno func args keywords called forbidden := by
    cases direct : func.direct with
    | false => exact seen (.call called forbidden direct)
    | true => exact quiet ⟨_, called, reported_of_direct direct⟩
  imports n inside := by
    cases imports : n.importsForbidden with
    | false => rfl
    | true =>
      rcases reported_or_byName imports with found | ⟨module, names, rfl, top⟩
      · exact absurd ⟨n, inside, found⟩ quiet
      · exact absurd (.importFrom inside top imports) seen

/-- For every tree: it is sound if nothing forbidden is reported, exactly when something is
reported or none of the shapes that escape stands in it. -/
theorem no_findings_sound_iff (linesOfCode : Nat) (t : Node) :
    ((analyzeTree linesOfCode t).forbiddenConstructs = [] → SoundTree t) ↔
      Reported t ∨ ¬ Unseen t := by
  rw [nothing_forbidden_iff]
  constructor
  · intro sound
    by_cases reported : Reported t
    · exact .inl reported
    · exact .inr fun unseen => not_sound_of_unseen unseen (sound reported)
  · rintro (reported | seen) quiet
    · exact absurd reported quiet
    · exact sound_of_nothing_unseen quiet seen

end

/-- `f = os.system` and a call of `f`. -/
def sampleAlias : Node :=
  .other .module
    [.importStmt [⟨"os", none⟩],
      .assign [.name "f" .store] (.attrOf (.name "os" .load) "system" .load),
      .other .exprStmt [.call 3 (.name "f" .load) [.constant (.str "id")] []]]

theorem aliased_system_unseen :
    ¬ ((analyzeTree 3 sampleAlias).forbiddenConstructs = [] → SoundTree sampleAlias) := by
  intro sound
  have quiet : (analyzeTree 3 sampleAlias).forbiddenConstructs = [] := by decide +kernel
  have read : (Node.attrOf (.name "os" .load) "system" .load).In sampleAlias :=
    mem_walk.mp (by simp [Node.walk, sampleAlias, Node.weight, Node.weights, Tree.walkFrom,
      Node.children])
  exact (sound quiet).attributes _ _ read (by decide)

end LegionForge.Tools
