import RpaCore.Json.Dict
import RpaCore.Model.Transaction

set_option relaxedAutoImplicit false
set_option autoImplicit false

/-!
# Resolving a project entrypoint

The code of `manifest.py` that imports the entrypoint of a project: it takes foreign modules out of
the table of modules, puts the project first on the path, imports, and undoes all of it if that
fails. What an import does is given by the modules that it registers.

## Main definitions

* `Imports` — `sys.modules`, the attributes of the modules, and `sys.path`.
* `Imports.register` — an import registers a module and binds it in its parent.
* `Imports.restoreModules` — `_restore_modules_after_failure`.
* `Imports.resolve` — `resolve_project_entrypoint`.
-/

/-! ## Names of modules -/

/-- `_module_is_at_or_below`. -/
def isAtOrBelow (name root : String) : Bool :=
  name = root || (root ++ ".").toList.isPrefixOf name.toList

/-- `name.count(".")`. -/
def dotCount (name : String) : ℕ := name.toList.count '.'

/-- `name.rpartition(".")`: the name of the parent and the attribute, if there is a parent. -/
def parentAttribute (name : String) : Option (String × String) :=
  let rest := name.toList.reverse.dropWhile (· ≠ '.')
  if rest = [] then none
  else some (String.ofList rest.tail.reverse,
    String.ofList (name.toList.reverse.takeWhile (· ≠ '.')).reverse)

/-! ## The state of the import system -/

/-- `sys.modules`, whose entries may be `None`, the `__dict__` of every object that has one, and
`sys.path`. -/
structure Imports (M : Type) where
  modules : Dict (Option M)
  namespaces : M → Option (Dict (Option M))
  path : List String

namespace Imports

variable {M : Type} [DecidableEq M]

/-- The value of an attribute of an object. -/
def attr (s : Imports M) (p : M) (name : String) : Option (Option M) :=
  (s.namespaces p).bind fun d => d.get? name

/-- The namespace of an object is changed, if it has one. -/
def modify (s : Imports M) (p : M) (f : Dict (Option M) → Dict (Option M)) : Imports M :=
  { s with namespaces := fun q => if q = p then (s.namespaces q).map f else s.namespaces q }

/-- The parent of a module, as it is registered, and the attribute for the module. -/
def parent? (s : Imports M) (name : String) : Option (M × String) := do
  let (parent, bound) ← parentAttribute name
  let p ← (s.modules.get? parent).join
  some (p, bound)

/-- An import registers a module, and binds it in its parent. -/
def register (s : Imports M) (module : String × M) : Imports M :=
  let s := { s with modules := s.modules.set module.1 (some module.2) }
  match s.parent? module.1 with
  | some (p, bound) => s.modify p fun d => d.set bound (some module.2)
  | none => s

/-- What an import registers, one module after the other. -/
def registerAll (s : Imports M) (registered : List (String × M)) : Imports M :=
  registered.foldl register s

/-! ## Conflicting modules -/

/-- The names of the packages that a module is in, and its own. -/
def modulePrefixes (moduleName : String) : List String :=
  let parts := (moduleName.toList.splitOn '.').map String.ofList
  (List.range parts.length).map fun n => ".".intercalate (parts.take (n + 1))

/-- An entry of the table that is no module of the project: `None`, or a module from elsewhere. -/
def isForeign (belongs : M → Bool) (entry : Option M) : Bool :=
  entry.all fun m => !belongs m

/-- `_conflicting_module_root`. -/
def conflictingRoot (belongs : M → Bool) (moduleName : String) (s : Imports M) : Option String :=
  (modulePrefixes moduleName).find? fun name => (s.modules.get? name).any (isForeign belongs)

/-- Whether `_evict_conflicting_modules` takes an entry out of the table. -/
def isEvicted (belongs : M → Bool) (root : Option String) (entry : String × Option M) : Bool :=
  root.any fun root => isAtOrBelow entry.1 root && isForeign belongs entry.2

/-- The entries that `_evict_conflicting_modules` takes out. -/
def evicted (belongs : M → Bool) (root : Option String) (s : Imports M) :
    List (String × Option M) :=
  s.modules.entries.filter (isEvicted belongs root)

/-- The table without some names. -/
def without (s : Imports M) (names : List String) : Imports M :=
  { s with modules := s.modules.filterKeys fun name => name ∉ names }

/-! ## Restoring -/

/-- One removed module of `_restore_modules_after_failure`: its parent gets back the module that is
registered again, or loses the one that is not. -/
def restoreAttribute (s : Imports M) (removed : String × Option M) : Imports M :=
  match s.parent? removed.1 with
  | some (p, bound) =>
    match s.modules.get? removed.1 with
    | some restored => s.modify p fun d => d.set bound restored
    | none =>
      if s.attr p bound = some removed.2 then
        s.modify p fun d => d.filterKeys (· ≠ bound)
      else s
  | none => s

/-- The entries that `_restore_modules_after_failure` removes. -/
def removed (cleanupRoot : String) (before evicted : List String) (s : Imports M) :
    List (String × Option M) :=
  s.modules.entries.filter fun entry =>
    isAtOrBelow entry.1 cleanupRoot && (entry.1 ∉ before || entry.1 ∈ evicted)

/-- `_restore_modules_after_failure`. -/
def restoreModules (cleanupRoot : String) (before : List String)
    (evicted : List (String × Option M)) (s : Imports M) : Imports M :=
  let removed := removed cleanupRoot before (evicted.map Prod.fst) s
  let s := s.without (removed.map Prod.fst)
  let s := { s with modules := s.modules.setAll evicted }
  (removed.insertionSort fun a b => dotCount a.1 ≤ dotCount b.1).foldl restoreAttribute s

/-! ## The path -/

/-- The path with the project first. -/
def enterPath (projectDir : String) (path : List String) : List String :=
  projectDir :: match path.idxOf? projectDir with
    | some i => path.eraseIdx i
    | none => path

/-- The path without the project, or with the project where it was. -/
def leavePath (projectDir : String) (index : Option ℕ) (path : List String) : List String :=
  let path := path.erase projectDir
  match index with
  | some i => path.insertIdx (min i path.length) projectDir
  | none => path

/-! ## Resolving -/

/-- The top-level package of a module. -/
def topLevel (moduleName : String) : String :=
  String.ofList (moduleName.toList.takeWhile (· ≠ '.'))

/-- The state in which the import starts. -/
def entered (belongs : M → Bool) (moduleName projectDir : String) (s : Imports M) : Imports M :=
  let s' := s.without ((s.evicted belongs (s.conflictingRoot belongs moduleName)).map Prod.fst)
  { s' with path := enterPath projectDir s'.path }

/-- `resolve_project_entrypoint`, given what the import registers, and what comes of it and of the
checks of the target. -/
def resolve {α : Type} (belongs : M → Bool) (moduleName projectDir : String)
    (registered : List (String × M)) (outcome : Except PyError α) (s : Imports M) :
    Except PyError α × Imports M :=
  let index := s.path.idxOf? projectDir
  let loaded := (s.entered belongs moduleName projectDir).registerAll registered
  let settled := match outcome with
    | .ok _ => loaded
    | .error _ => loaded.restoreModules (topLevel moduleName) (s.modules.entries.map Prod.fst)
        (s.evicted belongs (s.conflictingRoot belongs moduleName))
  (outcome, { settled with path := leavePath projectDir index settled.path })

end Imports
