import Zhiyi.Library.Trees
import Zhiyi.Library.Digits
import Zhiyi.Library.DottedNames
import Zhiyi.Library.Python

set_option autoImplicit false

/-! The architecture import gate of `scripts/sdd/check_design_drift.py`: the
modules its walk over a syntax tree records, and which imports of a forbidden
module it reports. -/
namespace Zhiyi.ImportGate
open Python

/-- A name the parser has read: identifiers between dots, or `*`. -/
structure Name where
  text : String
  wellFormed : Dotted.WellFormed text

/-- `ast.alias`. -/
structure Alias where
  name : Name
  asname : Option String

structure ImportFrom where
  module : Option Name
  names : List Alias
  level : ℕ
  lineno : ℕ
  nonempty : names ≠ []

/-- A node of the tree: an `ast.Import`, an `ast.ImportFrom`, or any other. -/
inductive AstNode where
  | imports (names : List Alias) (lineno : ℕ)
  | importFrom (node : ImportFrom)
  | other

def AstNode.lineno : AstNode → ℕ
  | imports _ lineno => lineno
  | importFrom node => node.lineno
  | other => 0

abbrev AST := RoseTree AstNode

/-- `PurePosixPath(path).parts`. -/
def pathParts (path : String) : List String :=
  let root := if startsWith path "//" && !startsWith path "///" then ["//"]
    else if startsWith path "/" then ["/"] else []
  root ++ ((path.toList.splitOn '/').map String.ofList).filter fun part => part ≠ "" ∧ part ≠ "."

/-- The directories below the last `src` of the path. -/
def packageParts (relativePath : String) : List String :=
  let parts := pathParts relativePath
  if "src" ∈ parts then
    let sourceIndex := parts.length - 1 - parts.reverse.idxOf "src"
    (parts.drop (sourceIndex + 1)).dropLast
  else []

def baseParts (packageParts : List String) (level : ℕ) : List String :=
  let parentLevels := level - 1
  if parentLevels > packageParts.length then []
  else if parentLevels ≠ 0 then packageParts.take (packageParts.length - parentLevels)
  else packageParts

def nodeModules (packageParts : List String) : AstNode → List (String × ℕ)
  | .imports names lineno => names.map fun item => (item.name.text, lineno)
  | .importFrom node =>
    if node.level = 0 then
      match node.module with
      | some module => [(module.text, node.lineno)]
      | none => []
    else
      let base := baseParts packageParts node.level
      match node.module with
      | some module =>
        let normalized := Dotted.join (base ++ Dotted.split module.text)
        if normalized ≠ "" then [(normalized, node.lineno)] else []
      | none =>
        (node.names.map fun item => (Dotted.join (base ++ [item.name.text]), node.lineno)).filter
          fun entry => entry.1 ≠ ""
  | .other => []

def importedModules (tree : AST) (relativePath : String) : List (String × ℕ) :=
  tree.walk.flatMap fun node => nodeModules (packageParts relativePath) node.label

def forbiddenImport (module forbidden : String) : Bool :=
  if endsWith forbidden "*" then startsWith module (String.ofList forbidden.toList.dropLast)
  else module == forbidden || startsWith module (forbidden ++ ".")

structure Rule where
  code : String
  description : String
  pathPatterns : List String
  forbiddenImports : List String

structure Finding where
  code : String
  message : String
  path : String
  remediation : String
  severity : String := "error"
  deriving DecidableEq

structure SyntaxError where
  message : String
  lineno : Option ℕ

/-- What the gate takes from the interpreter: `ast.parse`, the answer of
    `PurePosixPath(path).match(pattern) or fnmatch.fnmatchcase(path, pattern)`,
    `repr` and `str.strip`. -/
structure Interpreter where
  parse : String → Except SyntaxError AST
  globs : String → String → Bool
  repr : String → String
  strip : String → String

/-- The files of the repository: the text in the index, whether the working tree
    has the file, and what reading it gives. -/
structure Repository where
  indexText : String → Option String
  isFile : String → Bool
  readText : String → Except String String

variable (python : Interpreter) (repository : Repository)

def normalizedPathMatches (path pattern : String) : Bool :=
  let pattern := pattern.toList.map fun c => if c = '\\' then '/' else c
  if !pattern.any (fun c => c == '*' || c == '?' || c == '[') then path == String.ofList pattern
  else if ['/', '*', '*'].isSuffixOf pattern then
    let stem := String.ofList ((pattern.dropLast.dropLast.dropLast).rdropWhile (· == '/'))
    path == stem || startsWith path (stem ++ "/")
  else python.globs path (String.ofList pattern)

def matchingRules (rules : List Rule) (relativePath : String) : List Rule :=
  rules.filter fun rule => rule.pathPatterns.any (normalizedPathMatches python relativePath)

/-- The text to check, nothing when the file is to be skipped. -/
def sourceText (gate relativePath : String) : Except String (Option String) :=
  if gate = "commit" then .ok (repository.indexText relativePath)
  else if !repository.isFile relativePath then .ok none
  else (repository.readText relativePath).map some

def located (relativePath : String) (line : ℕ) : String := relativePath ++ ":" ++ toString line

def importFinding (rule : Rule) (relativePath module : String) (line : ℕ) : Finding where
  code := rule.code
  message := python.strip ("Forbidden import " ++ python.repr module ++ ". " ++ rule.description)
  path := located relativePath line
  remediation := "Move the dependency behind an inward-facing port " ++
    "or revise the approved architecture before coding."

def importFindings (rules : List Rule) (relativePath : String) (entry : String × ℕ) : List Finding :=
  rules.filterMap fun rule =>
    match rule.forbiddenImports.find? (forbiddenImport entry.1) with
    | some forbidden =>
      if forbidden ≠ "" then some (importFinding python rule relativePath entry.1 entry.2) else none
    | none => none

def unreadable (relativePath error : String) : Finding where
  code := "ARCH-000"
  path := relativePath
  message := "Cannot read Python source for validation: " ++ error
  remediation := "Restore a valid UTF-8 source file and retry."

def unparsable (relativePath : String) (error : SyntaxError) : Finding where
  code := "ARCH-000"
  path := match error.lineno with
    | some (line + 1) => located relativePath (line + 1)
    | _ => relativePath
  message := "Cannot statically validate Python architecture: " ++ error.message
  remediation := "Fix the file so the architecture gate can parse it."

/-- The loop's body for one file. -/
def validateFile (rules : List Rule) (gate relativePath : String) : List Finding :=
  if !endsWith relativePath ".py" then []
  else if matchingRules python rules relativePath = [] then []
  else
    match sourceText repository gate relativePath with
    | .error error => [unreadable relativePath error]
    | .ok none => []
    | .ok (some source) =>
      match python.parse source with
      | .error error => [unparsable relativePath error]
      | .ok tree =>
        (importedModules tree relativePath).flatMap
          (importFindings python (matchingRules python rules relativePath) relativePath)

def validateArchitecture (implementationFiles : List String) (rules : List Rule) (gate : String) :
    List Finding :=
  implementationFiles.flatMap (validateFile python repository rules gate)

/-- The module a from-import takes its names from: a relative one counts its
    levels from the statement's package and fails beyond the top one. -/
def ImportFrom.target (package : List String) (node : ImportFrom) : Option String :=
  if node.level = 0 then node.module.map Name.text
  else if package.length < node.level then none
  else
    let base := Dotted.join (package.take (package.length - (node.level - 1)))
    match node.module with
    | some module => some (base ++ "." ++ module.text)
    | none => some base

/-- The modules a statement of the package imports, when `isModule` tells which
    names are modules. -/
inductive BringsIn (isModule : String → Prop) (package : List String) : AstNode → String → Prop
  | named {names : List Alias} {lineno : ℕ} {item : Alias} (h : item ∈ names) :
    BringsIn isModule package (.imports names lineno) item.name.text
  | target {node : ImportFrom} {module : String} (h : node.target package = some module) :
    BringsIn isModule package (.importFrom node) module
  | submodule {node : ImportFrom} {module : String} {item : Alias}
    (h : node.target package = some module) (hitem : item ∈ node.names)
    (hmodule : isModule (module ++ "." ++ item.name.text)) :
    BringsIn isModule package (.importFrom node) (module ++ "." ++ item.name.text)

def Forbids (rules : List Rule) (module : String) : Prop :=
  ∃ rule ∈ rules, ∃ forbidden ∈ rule.forbiddenImports, forbiddenImport module forbidden = true

/-- The path of a Python module below `src`, and the package it is in. -/
structure ModulePath where
  text : String
  package : List String
  file : String
  python : endsWith text ".py" = true
  parts : pathParts text = "src" :: (package ++ [file])
  named : ∀ part ∈ package, Dotted.WellFormed part

/-- Each statement that brings in a forbidden module has a finding for its line. -/
def Complete (files : List String) (rules : List Rule) (gate : String) (isModule : String → Prop)
    (path : ModulePath) (tree : AST) : Prop :=
  ∀ statement : AST, tree.Within statement → ∀ rule ∈ matchingRules python rules path.text,
    ∀ module, BringsIn isModule path.package statement.label module → Forbids [rule] module →
      ∃ finding ∈ validateArchitecture python repository files rules gate,
        finding.path = located path.text statement.label.lineno

/-- The names a statement spells out: those of a plain import, the one before
    `import`, or, where none is there, those after it; with levels counted from
    the package. -/
inductive Spells (package : List String) : AstNode → String → Prop
  | named {names : List Alias} {lineno : ℕ} {item : Alias} (h : item ∈ names) :
    Spells package (.imports names lineno) item.name.text
  | absolute {node : ImportFrom} {module : Name} (hlevel : node.level = 0)
    (h : node.module = some module) : Spells package (.importFrom node) module.text
  | relative {node : ImportFrom} {module : Name} (hlevel : node.level ≠ 0)
    (h : node.module = some module) :
    Spells package (.importFrom node)
      (Dotted.join (package.take (package.length - (node.level - 1)) ++ [module.text]))
  | bare {node : ImportFrom} {item : Alias} (hlevel : node.level ≠ 0) (h : node.module = none)
    (hitem : item ∈ node.names) :
    Spells package (.importFrom node)
      (Dotted.join (package.take (package.length - (node.level - 1)) ++ [item.name.text]))

theorem baseParts_eq (package : List String) (level : ℕ) :
    baseParts package level = package.take (package.length - (level - 1)) := by
  simp only [baseParts]
  split_ifs with hbeyond hsome
  · rw [show package.length - (level - 1) = 0 by omega, List.take_zero]
  · rfl
  · rw [show level - 1 = 0 by omega, Nat.sub_zero, List.take_length]

theorem join_split_append (base : List String) (module : String) :
    Dotted.join (base ++ Dotted.split module) = Dotted.join (base ++ [module]) := by
  by_cases h : base = []
  · simp [h, Dotted.join_split, Dotted.join_singleton]
  · rw [Dotted.join_append h (Dotted.split_ne_nil module), Dotted.join_split,
      Dotted.join_append h (by simp), Dotted.join_singleton]

theorem join_append_ne_empty (base : List String) (name : Name) :
    Dotted.join (base ++ [name.text]) ≠ "" := by
  by_cases h : base = []
  · simpa [h, Dotted.join_singleton] using name.wellFormed.ne_empty
  · rw [Dotted.join_append h (by simp)]
    intro hempty
    have := congrArg String.toList hempty
    simp at this

theorem mem_nodeModules {package : List String} {node : AstNode} {module : String} {line : ℕ} :
    (module, line) ∈ nodeModules package node ↔ Spells package node module ∧ line = node.lineno := by
  cases node with
  | imports names lineno =>
    simp only [nodeModules, List.mem_map, Prod.mk.injEq, AstNode.lineno]
    constructor
    · rintro ⟨item, hitem, rfl, rfl⟩
      exact ⟨.named hitem, rfl⟩
    · rintro ⟨hspells, rfl⟩
      cases hspells with
      | named hitem => exact ⟨_, hitem, rfl, rfl⟩
  | importFrom node =>
    simp only [nodeModules, baseParts_eq, join_split_append, AstNode.lineno]
    split_ifs with hlevel
    · cases hmodule : node.module with
      | none =>
        constructor
        · intro h
          cases h
        · rintro ⟨hspells, -⟩
          cases hspells with
          | absolute _ h => rw [hmodule] at h; cases h
          | relative hne => exact absurd hlevel hne
          | bare hne => exact absurd hlevel hne
      | some name =>
        simp only [List.mem_singleton, Prod.mk.injEq]
        constructor
        · rintro ⟨rfl, rfl⟩
          exact ⟨.absolute hlevel hmodule, rfl⟩
        · rintro ⟨hspells, rfl⟩
          cases hspells with
          | absolute _ h => rw [hmodule] at h; cases h; exact ⟨rfl, rfl⟩
          | relative hne => exact absurd hlevel hne
          | bare hne => exact absurd hlevel hne
    · cases hmodule : node.module with
      | none =>
        simp only [List.mem_filter, List.mem_map, Prod.mk.injEq, decide_eq_true_eq]
        constructor
        · rintro ⟨⟨item, hitem, rfl, rfl⟩, -⟩
          exact ⟨.bare hlevel hmodule hitem, rfl⟩
        · rintro ⟨hspells, rfl⟩
          cases hspells with
          | absolute heq => exact absurd heq hlevel
          | relative _ h => rw [hmodule] at h; cases h
          | bare _ _ hitem => exact ⟨⟨_, hitem, rfl, rfl⟩, join_append_ne_empty _ _⟩
      | some name =>
        simp only [ne_eq, join_append_ne_empty, not_false_eq_true, if_true, List.mem_singleton,
          Prod.mk.injEq]
        constructor
        · rintro ⟨rfl, rfl⟩
          exact ⟨.relative hlevel hmodule, rfl⟩
        · rintro ⟨hspells, rfl⟩
          cases hspells with
          | absolute heq => exact absurd heq hlevel
          | relative _ h => rw [hmodule] at h; cases h; exact ⟨rfl, rfl⟩
          | bare _ h => rw [hmodule] at h; cases h
  | other =>
    constructor
    · intro h
      cases h
    · rintro ⟨hspells, -⟩
      cases hspells

theorem mem_importedModules {tree : AST} {path module : String} {line : ℕ} :
    (module, line) ∈ importedModules tree path ↔
      ∃ statement : AST, tree.Within statement ∧
        Spells (packageParts path) statement.label module ∧ line = statement.label.lineno := by
  simp only [importedModules, List.mem_flatMap, RoseTree.mem_walk, mem_nodeModules]

theorem forbiddenImport_empty {module : String} (hne : module ≠ "")
    (hdot : startsWith module "." = false) : forbiddenImport module "" = false := by
  rw [forbiddenImport, if_neg (by decide), String.empty_append, hdot, Bool.or_false]
  exact beq_false_of_ne hne

theorem startsWith_append {text start : String} (h : startsWith text start = true) (rest : String) :
    startsWith (text ++ rest) start = true := by
  simp only [startsWith, List.isPrefixOf_iff_prefix, String.toList_append] at h ⊢
  exact h.trans (List.prefix_append _ _)

theorem startsWith_self (text : String) : startsWith text text = true := by
  simp [startsWith]

theorem forbiddenImport_below {module forbidden : String}
    (h : forbiddenImport module forbidden = true) (name : String) :
    forbiddenImport (module ++ "." ++ name) forbidden = true := by
  unfold forbiddenImport at h ⊢
  split_ifs at h ⊢ with hstar
  · rw [String.append_assoc]
    exact startsWith_append h _
  · rcases Bool.or_eq_true_iff.mp h with heq | hbelow
    · rw [← eq_of_beq heq, startsWith_append (startsWith_self _), Bool.or_true]
    · rw [String.append_assoc, startsWith_append hbelow, Bool.or_true]

theorem Forbids.below {rules : List Rule} {module : String} (h : Forbids rules module)
    (name : String) : Forbids rules (module ++ "." ++ name) := by
  obtain ⟨rule, hrule, forbidden, hforbidden, himport⟩ := h
  exact ⟨rule, hrule, forbidden, hforbidden, forbiddenImport_below himport name⟩

theorem path_of_importFindings {rules : List Rule} {path : String} {entry : String × ℕ}
    {finding : Finding} (h : finding ∈ importFindings python rules path entry) :
    finding.path = located path entry.2 := by
  obtain ⟨rule, -, hrule⟩ := List.mem_filterMap.mp h
  split at hrule
  · split_ifs at hrule
    · cases hrule
      rfl
  · cases hrule

theorem forbids_of_importFindings {rules : List Rule} {path : String} {entry : String × ℕ}
    {finding : Finding} (h : finding ∈ importFindings python rules path entry) :
    Forbids rules entry.1 := by
  obtain ⟨rule, hrule, hsome⟩ := List.mem_filterMap.mp h
  split at hsome
  · next forbidden hfind =>
    exact ⟨rule, hrule, forbidden, List.mem_of_find?_eq_some hfind, List.find?_some hfind⟩
  · cases hsome

theorem exists_importFinding {rules : List Rule} {module : String} (h : Forbids rules module)
    (hempty : forbiddenImport module "" = false) (path : String) (line : ℕ) :
    ∃ finding, finding ∈ importFindings python rules path (module, line) := by
  obtain ⟨rule, hrule, forbidden, hforbidden, himport⟩ := h
  obtain ⟨first, hfirst⟩ := Option.isSome_iff_exists.mp
    (List.find?_isSome.mpr ⟨forbidden, hforbidden, himport⟩)
  have hne : first ≠ "" := by
    rintro rfl
    exact Bool.false_ne_true (hempty.symm.trans (List.find?_some hfirst))
  exact ⟨_, List.mem_filterMap.mpr ⟨rule, hrule, by simp only [hfirst, if_pos hne]; rfl⟩⟩

theorem drop_packageParts {text : String} {package : List String} {file : String}
    (h : pathParts text = "src" :: (package ++ [file])) :
    ∃ n, packageParts text = package.drop n := by
  simp only [packageParts, h, List.mem_cons_self, if_true, List.drop_succ_cons]
  generalize ("src" :: (package ++ [file])).length - 1 - _ = n
  refine ⟨n, ?_⟩
  by_cases hn : n ≤ package.length
  · rw [List.drop_append_of_le_length hn, List.dropLast_concat]
  · rw [List.drop_eq_nil_of_le (by simp; omega), List.drop_eq_nil_of_le (by omega), List.dropLast_nil]

theorem packageParts_of_innermost {path : ModulePath} (h : "src" ∉ path.package ++ [path.file]) :
    packageParts path.text = path.package := by
  have hindex : ("src" :: (path.package ++ [path.file])).reverse.idxOf "src" =
      (path.package ++ [path.file]).length := by
    rw [List.reverse_cons, List.idxOf_append_of_notMem (by rwa [List.mem_reverse])]
    simp
  simp only [packageParts, path.parts, List.mem_cons_self, if_true, hindex]
  simp

theorem Spells.above_empty {package : List String} (hpackage : ∀ part ∈ package, Dotted.WellFormed part)
    {node : AstNode} {module : String} (h : Spells package node module) :
    forbiddenImport module "" = false := by
  have hjoin : ∀ n (name : Name),
      forbiddenImport (Dotted.join (package.take n ++ [name.text])) "" = false := by
    intro n name
    have hnot : startsWith (Dotted.join (package.take n ++ [name.text])) "." = false := by
      apply Dotted.not_startsWith_join
      intro part hpart
      rcases List.mem_append.mp hpart with hpart | hpart
      · exact hpackage part (List.mem_of_mem_take hpart)
      · rw [List.mem_singleton.mp hpart]
        exact name.wellFormed
    exact forbiddenImport_empty (join_append_ne_empty _ _) hnot
  cases h with
  | named => exact forbiddenImport_empty (Name.wellFormed _).ne_empty (Name.wellFormed _).not_startsWith
  | absolute => exact forbiddenImport_empty (Name.wellFormed _).ne_empty (Name.wellFormed _).not_startsWith
  | relative => exact hjoin _ _
  | bare => exact hjoin _ _

theorem toList_line (line : ℕ) : (toString line).toList = Nat.toDigits 10 line := Nat.toList_repr

theorem isDigit_of_mem_line {line : ℕ} {c : Char} (h : c ∈ (toString line).toList) :
    c.isDigit = true := by
  rw [toList_line] at h
  exact Digits.allDigits_toDigits line c h

theorem eq_of_append_cons {c : Char} {a a' b b' : List Char} (hb : c ∉ b) (hb' : c ∉ b')
    (h : a ++ c :: b = a' ++ c :: b') : a = a' ∧ b = b' := by
  have hlast : ∀ {x y z : List Char}, c ∉ y → c :: y = x ++ c :: z → x = [] := by
    intro x y z hy heq
    cases x with
    | nil => rfl
    | cons d x =>
      cases heq
      exact absurd (by simp) hy
  rcases List.append_eq_append_iff.mp h with ⟨x, hx, hb''⟩ | ⟨x, hx, hb''⟩
  · have := hlast hb hb''
    subst this
    simp_all
  · have := hlast hb' hb''
    subst this
    simp_all

theorem located_injective {path path' : String} {line line' : ℕ}
    (h : located path line = located path' line') : path = path' ∧ line = line' := by
  have hcolon : ∀ n : ℕ, ':' ∉ (toString n).toList := by
    intro n hmem
    exact absurd (isDigit_of_mem_line hmem) (by decide)
  have hchars := congrArg String.toList h
  simp only [located, String.toList_append, List.append_assoc] at hchars
  obtain ⟨hpath, hline⟩ := eq_of_append_cons (hcolon line) (hcolon line') hchars
  exact ⟨String.toList_injective hpath, repr_injective (String.toList_injective hline)⟩

theorem located_not_python (path : String) (line : ℕ) : endsWith (located path line) ".py" = false := by
  by_contra hends
  obtain ⟨rest, hrest⟩ := List.isSuffixOf_iff_suffix.mp (Bool.eq_true_of_not_eq_false hends)
  have hlast := congrArg List.getLast? hrest
  have hne : (toString line).toList ≠ [] := by
    rw [toList_line]
    exact Nat.toDigits_ne_nil
  rw [located, String.toList_append, List.getLast?_append_of_ne_nil _ hne,
    List.getLast?_append_of_ne_nil _ (by decide)] at hlast
  have hy : 'y' ∈ (toString line).toList := List.mem_of_getLast? hlast.symm
  exact absurd (isDigit_of_mem_line hy) (by decide)

theorem wellFormed_packageParts (path : ModulePath) :
    ∀ part ∈ packageParts path.text, Dotted.WellFormed part := by
  obtain ⟨n, hn⟩ := drop_packageParts path.parts
  rw [hn]
  intro part hpart
  exact path.named part (List.mem_of_mem_drop hpart)

section
variable {python repository} {rules : List Rule} {gate : String} {path : ModulePath} {source : String}
  {tree : AST}

theorem validateFile_tree (htext : sourceText repository gate path.text = .ok (some source))
    (hparse : python.parse source = .ok tree) :
    validateFile python repository rules gate path.text =
      (importedModules tree path.text).flatMap
        (importFindings python (matchingRules python rules path.text) path.text) := by
  unfold validateFile
  rw [path.python, htext]
  simp only [hparse, Bool.not_true, Bool.false_eq_true, if_false]
  split_ifs with hnone
  · rw [hnone]
    symm
    apply List.flatMap_eq_nil_iff.mpr
    intro entry _
    rfl
  · rfl

theorem validateFile_of_path {file : String} {finding : Finding} {line : ℕ}
    (h : finding ∈ validateFile python repository rules gate file)
    (hpath : finding.path = located path.text line) : file = path.text := by
  have hnot : file ≠ located path.text line ∨ endsWith file ".py" = false := by
    by_cases heq : file = located path.text line
    · exact .inr (heq ▸ located_not_python _ _)
    · exact .inl heq
  unfold validateFile at h
  split_ifs at h with hend hmatch
  · cases h
  · cases h
  · have hfile : file ≠ located path.text line := by
      rcases hnot with hnot | hnot
      · exact hnot
      · simp [hnot] at hend
    split at h
    · rw [List.mem_singleton.mp h] at hpath
      exact absurd hpath hfile
    · cases h
    · split at h
      · rw [List.mem_singleton.mp h] at hpath
        simp only [unparsable] at hpath
        split at hpath
        · exact (located_injective hpath).1
        · exact absurd hpath hfile
      · obtain ⟨entry, -, hentry⟩ := List.mem_flatMap.mp h
        rw [path_of_importFindings python hentry] at hpath
        exact (located_injective hpath).1

/-- The lines the gate reports are those of the statements that spell out a
    forbidden name. -/
theorem reported_iff {files : List String} (hfile : path.text ∈ files)
    (htext : sourceText repository gate path.text = .ok (some source))
    (hparse : python.parse source = .ok tree) {line : ℕ} :
    (∃ finding ∈ validateArchitecture python repository files rules gate,
        finding.path = located path.text line) ↔
      ∃ statement : AST, tree.Within statement ∧ statement.label.lineno = line ∧
        ∃ module, Spells (packageParts path.text) statement.label module ∧
          Forbids (matchingRules python rules path.text) module := by
  constructor
  · rintro ⟨finding, hfinding, hpath⟩
    obtain ⟨file, -, hmem⟩ := List.mem_flatMap.mp hfinding
    obtain rfl := validateFile_of_path hmem hpath
    rw [validateFile_tree htext hparse] at hmem
    obtain ⟨⟨module, line'⟩, hentry, hreport⟩ := List.mem_flatMap.mp hmem
    obtain ⟨statement, hwithin, hspells, rfl⟩ := mem_importedModules.mp hentry
    have hline := path_of_importFindings python hreport
    rw [hpath] at hline
    exact ⟨statement, hwithin, (located_injective hline).2.symm, module, hspells,
      forbids_of_importFindings python hreport⟩
  · rintro ⟨statement, hwithin, rfl, module, hspells, hforbids⟩
    have hempty := hspells.above_empty (wellFormed_packageParts path)
    obtain ⟨finding, hfinding⟩ :=
      exists_importFinding python hforbids hempty path.text statement.label.lineno
    refine ⟨finding, List.mem_flatMap.mpr ⟨path.text, hfile, ?_⟩,
      path_of_importFindings python hfinding⟩
    rw [validateFile_tree htext hparse]
    exact List.mem_flatMap.mpr
      ⟨_, mem_importedModules.mpr ⟨statement, hwithin, hspells, rfl⟩, hfinding⟩

end

/-- A from-import spells out the module before `import`, or else the
    submodules that may be taken from it. -/
theorem spells_target {package : List String} {node : ImportFrom} {module : String}
    (h : node.target package = some module) :
    (node.module.isSome ∧ Spells package (.importFrom node) module) ∨
      (node.module = none ∧ ∀ item ∈ node.names,
        Spells package (.importFrom node) (module ++ "." ++ item.name.text)) := by
  unfold ImportFrom.target at h
  split_ifs at h with hlevel hbeyond
  · obtain ⟨name, hname, rfl⟩ := Option.map_eq_some_iff.mp h
    exact .inl ⟨by rw [hname]; rfl, .absolute hlevel hname⟩
  · have hbase : package.take (package.length - (node.level - 1)) ≠ [] := by
      rw [ne_eq, List.take_eq_nil_iff, not_or, ← List.length_eq_zero_iff]
      omega
    have hjoin : ∀ text, Dotted.join (package.take (package.length - (node.level - 1)) ++ [text]) =
        Dotted.join (package.take (package.length - (node.level - 1))) ++ "." ++ text := by
      intro text
      rw [Dotted.join_append hbase (by simp), Dotted.join_singleton]
    simp only at h
    cases hmodule : node.module with
    | some name =>
      rw [hmodule] at h
      cases h
      rw [← hjoin]
      exact .inl ⟨rfl, .relative hlevel hmodule⟩
    | none =>
      rw [hmodule] at h
      cases h
      refine .inr ⟨rfl, ?_⟩
      intro item hitem
      rw [← hjoin]
      exact .bare hlevel hmodule hitem

theorem spells_of_module {package : List String} {node : ImportFrom} {module name : String}
    (htarget : node.target package = some module) (hsome : node.module.isSome)
    (hspells : Spells package (.importFrom node) name) : name = module := by
  rcases spells_target htarget with ⟨-, h⟩ | ⟨hnone, -⟩
  · obtain ⟨stated, hstated⟩ := Option.isSome_iff_exists.mp hsome
    have hunique : ∀ {a b : String}, Spells package (.importFrom node) a →
        Spells package (.importFrom node) b → a = b := by
      intro a b ha hb
      cases ha <;> cases hb <;> simp_all
    exact hunique hspells h
  · rw [hnone] at hsome
    cases hsome

/-- The statement brings in a forbidden module and every name it spells out is
    allowed. -/
def Evades (rules : List Rule) (isModule : String → Prop) (path : ModulePath) (node : AstNode) : Prop :=
  (∃ module, BringsIn isModule path.package node module ∧ Forbids rules module) ∧
    ∀ module, Spells (packageParts path.text) node module → ¬ Forbids rules module

theorem gate_complete_iff {files : List String} {rules : List Rule} {gate : String}
    (isModule : String → Prop) {path : ModulePath} {source : String} {tree : AST}
    (hfile : path.text ∈ files) (htext : sourceText repository gate path.text = .ok (some source))
    (hparse : python.parse source = .ok tree) :
    Complete python repository files rules gate isModule path tree ↔
      ∀ statement : AST, tree.Within statement →
        Evades (matchingRules python rules path.text) isModule path statement.label →
        ∃ other : AST, tree.Within other ∧ other.label.lineno = statement.label.lineno ∧
          ∃ module, Spells (packageParts path.text) other.label module ∧
            Forbids (matchingRules python rules path.text) module := by
  constructor
  · rintro hcomplete statement hwithin ⟨⟨module, hbrings, rule, hrule, hforbidden⟩, -⟩
    have hreported := hcomplete statement hwithin rule hrule module hbrings
      ⟨rule, List.mem_singleton_self rule, hforbidden⟩
    exact (reported_iff hfile htext hparse).mp hreported
  · intro hcondition statement hwithin rule hrule module hbrings hforbids
    apply (reported_iff hfile htext hparse).mpr
    obtain ⟨only, honly, hforbidden⟩ := hforbids
    obtain rfl := List.mem_singleton.mp honly
    have hbroken : Forbids (matchingRules python rules path.text) module := ⟨only, hrule, hforbidden⟩
    by_cases hspelled : ∃ name, Spells (packageParts path.text) statement.label name ∧
        Forbids (matchingRules python rules path.text) name
    · exact ⟨statement, hwithin, rfl, hspelled⟩
    · exact hcondition statement hwithin
        ⟨⟨module, hbrings, hbroken⟩, fun name hname hforbid => hspelled ⟨name, hname, hforbid⟩⟩

/-- Below a single `src` the statements that evade the rules are the
    from-imports of a forbidden submodule from a module that is itself
    allowed and stands before `import`. -/
theorem evades_iff {rules : List Rule} {isModule : String → Prop} {path : ModulePath}
    (hsrc : "src" ∉ path.package ++ [path.file]) {node : AstNode} :
    Evades rules isModule path node ↔
      ∃ (statement : ImportFrom) (module : String), node = .importFrom statement ∧
        statement.module.isSome ∧ statement.target path.package = some module ∧
        ¬ Forbids rules module ∧ ∃ item ∈ statement.names,
          isModule (module ++ "." ++ item.name.text) ∧
          Forbids rules (module ++ "." ++ item.name.text) := by
  rw [Evades, packageParts_of_innermost hsrc]
  constructor
  · rintro ⟨⟨module, hbrings, hforbids⟩, hallowed⟩
    cases hbrings with
    | named hitem => exact absurd hforbids (hallowed _ (.named hitem))
    | @target statement module htarget =>
      rcases spells_target htarget with ⟨-, hspells⟩ | ⟨-, hspells⟩
      · exact absurd hforbids (hallowed _ hspells)
      · obtain ⟨item, hitem⟩ := List.exists_mem_of_ne_nil _ statement.nonempty
        exact absurd (hforbids.below _) (hallowed _ (hspells item hitem))
    | @submodule statement module item htarget hitem hmodule =>
      rcases spells_target htarget with ⟨hsome, hspells⟩ | ⟨-, hspells⟩
      · exact ⟨statement, module, rfl, hsome, htarget, hallowed _ hspells, item, hitem, hmodule,
          hforbids⟩
      · exact absurd hforbids (hallowed _ (hspells item hitem))
  · rintro ⟨statement, module, rfl, hsome, htarget, hallowed, item, hitem, hmodule, hforbids⟩
    refine ⟨⟨_, .submodule htarget hitem hmodule, hforbids⟩, ?_⟩
    intro name hspells
    rwa [spells_of_module htarget hsome hspells]

/-- ARCH-001 of `design-map.json`. -/
def domainRule : Rule where
  code := "ARCH-001"
  description := "Domain must be framework-free and depend on no outer layer."
  pathPatterns := ["src/zhiyi/domain/*.py", "src/zhiyi/domain/**/*.py"]
  forbiddenImports := ["fastapi", "pydantic", "sqlalchemy", "langchain*", "langgraph*", "langfuse*",
    "openai", "anthropic", "zhiyi.application", "zhiyi.runtime", "zhiyi.adapters", "zhiyi.api",
    "zhiyi.infrastructure"]

def domainModel : ModulePath where
  text := "src/zhiyi/domain/model.py"
  package := ["zhiyi", "domain"]
  file := "model.py"
  python := by decide
  parts := by decide
  named := by decide

/-- `from zhiyi import application`, on line 1. -/
def layerImport : ImportFrom where
  module := some ⟨"zhiyi", by decide⟩
  names := [⟨⟨"application", by decide⟩, none⟩]
  level := 0
  lineno := 1
  nonempty := by decide

def domainTree : AST := .node .other [.node (.importFrom layerImport) []]

def domainInterpreter : Interpreter where
  parse _ := .ok domainTree
  globs path pattern := path == domainModel.text && pattern == "src/zhiyi/domain/*.py"
  repr text := "'" ++ text ++ "'"
  strip text := text

def domainRepository : Repository where
  indexText _ := none
  isFile path := path == domainModel.text
  readText _ := .ok "from zhiyi import application"

/-- The import of the application layer into the domain goes unreported. -/
theorem layer_import_unreported :
    ¬ Complete domainInterpreter domainRepository [domainModel.text] [domainRule] "manual"
      (· = "zhiyi.application") domainModel domainTree := by
  intro hcomplete
  have hnone : validateArchitecture domainInterpreter domainRepository [domainModel.text] [domainRule]
      "manual" = [] := by decide
  have hbrings : BringsIn (· = "zhiyi.application") domainModel.package (.importFrom layerImport)
      "zhiyi.application" :=
    @BringsIn.submodule _ _ layerImport "zhiyi" ⟨⟨"application", by decide⟩, none⟩ rfl
      List.mem_cons_self (by decide)
  obtain ⟨finding, hfinding, -⟩ := hcomplete _ (.child List.mem_cons_self (.root _)) domainRule
    (List.mem_filter.mpr ⟨List.mem_cons_self, by decide⟩) _ hbrings
    ⟨domainRule, List.mem_cons_self, "zhiyi.application", by decide, by decide⟩
  rw [hnone] at hfinding
  cases hfinding

def namedImport : AstNode := .imports [⟨⟨"zhiyi.application", by decide⟩, none⟩] 1

/-- `import zhiyi.application; from zhiyi import application`, both on line 1. -/
def lineTree : AST := .node .other [.node namedImport [], .node (.importFrom layerImport) []]

def lineInterpreter : Interpreter := { domainInterpreter with parse _ := .ok lineTree }

def lineRepository : Repository :=
  { domainRepository with readText _ := .ok "import zhiyi.application; from zhiyi import application" }

theorem line_statements {statement : AST} (h : lineTree.Within statement) : statement.label = .other ∨
    statement.label = namedImport ∨ statement.label = .importFrom layerImport := by
  cases h with
  | root => exact .inl rfl
  | child hc hd =>
    rcases List.mem_cons.mp hc with rfl | hc
    · cases hd with
      | root => exact .inr (.inl rfl)
      | child hc => cases hc
    · obtain rfl := List.mem_singleton.mp hc
      cases hd with
      | root => exact .inr (.inr rfl)
      | child hc => cases hc

/-- The gate misses the import that stands alone, and reports it on a line it shares with one that
    spells the layer out. -/
theorem gate_complete_iff_domainModel :
    (Complete domainInterpreter domainRepository [domainModel.text] [domainRule] "manual"
        (· = "zhiyi.application") domainModel domainTree ↔
      ∀ statement : AST, domainTree.Within statement →
        Evades (matchingRules domainInterpreter [domainRule] domainModel.text)
          (· = "zhiyi.application") domainModel statement.label →
        ∃ other : AST, domainTree.Within other ∧ other.label.lineno = statement.label.lineno ∧
          ∃ module, Spells (packageParts domainModel.text) other.label module ∧
            Forbids (matchingRules domainInterpreter [domainRule] domainModel.text) module) ∧
    Complete lineInterpreter lineRepository [domainModel.text] [domainRule] "manual"
      (· = "zhiyi.application") domainModel lineTree := by
  refine ⟨gate_complete_iff domainInterpreter domainRepository _ List.mem_cons_self rfl
    (show domainInterpreter.parse "from zhiyi import application" = .ok domainTree from rfl), ?_⟩
  refine (gate_complete_iff lineInterpreter lineRepository _ List.mem_cons_self rfl
    (show lineInterpreter.parse "import zhiyi.application; from zhiyi import application" = .ok lineTree
      from rfl)).mpr fun statement hwithin hevades => ?_
  have hline : statement.label.lineno = 1 := by
    obtain ⟨⟨module, hbrings, -⟩, -⟩ := hevades
    rcases line_statements hwithin with hother | hnamed | himport
    · rw [hother] at hbrings
      cases hbrings
    · rw [hnamed]
      rfl
    · rw [himport]
      rfl
  refine ⟨.node namedImport [], .child List.mem_cons_self (.root _), hline.symm, "zhiyi.application",
    .named List.mem_cons_self, domainRule, ?_, "zhiyi.application", by decide, by decide⟩
  exact List.mem_filter.mpr ⟨List.mem_cons_self, by decide⟩

end Zhiyi.ImportGate
