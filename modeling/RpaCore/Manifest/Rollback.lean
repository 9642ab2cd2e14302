import Mathlib.Data.List.Induction
import RpaCore.Manifest.Entrypoint

set_option relaxedAutoImplicit false
set_option autoImplicit false

/-!
# Failed resolutions

What is left of a resolution of an entrypoint that fails.

## Main definitions

* `Registers` — what an import registers: new modules under the package.
* `Restored` — the table of modules, their attributes and the path are as before.
* `Restorable` — the condition under which they are.

## Main results

* `Imports.restored_iff` — when a failed resolution restores its namespace.
-/

variable {M : Type} [DecidableEq M]

/-- An import registers modules under a package, and they are new: no entry of the table and no
attribute of a module in it was one of them. -/
structure Registers (s : Imports M) (root : String) (registered : List (String × M)) : Prop where
  below : ∀ r ∈ registered, isAtOrBelow r.1 root = true
  unregistered : ∀ r ∈ registered, ∀ name, s.modules.get? name ≠ some (some r.2)
  unbound : ∀ r ∈ registered, ∀ name p, s.modules.get? name = some (some p) →
    ∀ bound, s.attr p bound ≠ some (some r.2)

/-- The entries of the table at or below a package, the attributes of the modules in them, and the
path are as before. -/
structure Restored (root : String) (s s' : Imports M) : Prop where
  modules : ∀ name, isAtOrBelow name root = true → s'.modules.get? name = s.modules.get? name
  attributes : ∀ name p, isAtOrBelow name root = true → s.modules.get? name = some (some p) →
    ∀ bound, s'.attr p bound = s.attr p bound
  path : s'.path = s.path

namespace Imports

/-! ## The path -/

/-- An entry that is taken out and put back. -/
lemma insertIdx_eraseIdx_eq {path : List String} {i : ℕ} {dir : String}
    (h : path[i]? = some dir) : (path.eraseIdx i).insertIdx i dir = path := by
  induction path generalizing i with
  | nil => cases h
  | cons first path ih =>
    cases i with
    | zero =>
      cases h
      rfl
    | succ i =>
      rw [List.getElem?_cons_succ] at h
      rw [List.eraseIdx_cons_succ, List.insertIdx_succ_cons, ih h]

/-- **The path is restored.** -/
lemma leavePath_enterPath (projectDir : String) (path : List String) :
    leavePath projectDir (path.idxOf? projectDir) (enterPath projectDir path) = path := by
  unfold leavePath enterPath
  rw [List.erase_cons_head]
  cases hindex : path.idxOf? projectDir with
  | none => rfl
  | some i =>
    obtain ⟨hi, hdir, -⟩ := List.idxOf?_eq_some_iff.mp hindex
    have hlength : min i (path.eraseIdx i).length = i := by
      rw [List.length_eraseIdx_of_lt hi]
      omega
    dsimp only
    rw [hlength]
    exact insertIdx_eraseIdx_eq (by rw [List.getElem?_eq_getElem hi, hdir])

/-! ## Attributes and parents -/

variable {s : Imports M} {p q : M} {bound : String}

/-- The attributes of an object whose namespace is changed. -/
lemma attr_modify_self {f : Dict (Option M) → Dict (Option M)} {d : Dict (Option M)}
    (h : s.namespaces p = some d) : (s.modify p f).attr p bound = (f d).get? bound := by
  unfold attr modify
  dsimp only
  rw [if_pos rfl, h]
  rfl

/-- The attributes of another object. -/
lemma attr_modify_of_ne {f : Dict (Option M) → Dict (Option M)} (h : p ≠ q) :
    (s.modify q f).attr p bound = s.attr p bound := by
  unfold attr modify
  dsimp only
  rw [if_neg h]

/-- Changing a namespace leaves the table as it is. -/
@[simp] lemma modules_modify {f : Dict (Option M) → Dict (Option M)} :
    (s.modify p f).modules = s.modules := rfl

/-- Changing a namespace leaves the path as it is. -/
@[simp] lemma path_modify {f : Dict (Option M) → Dict (Option M)} :
    (s.modify p f).path = s.path := rfl

/-- Changing a namespace leaves the objects with a namespace as they are. -/
lemma isSome_modify {f : Dict (Option M) → Dict (Option M)} :
    ((s.modify q f).namespaces p).isSome = (s.namespaces p).isSome := by
  unfold modify
  dsimp only
  split
  · rw [Option.isSome_map]
  · rfl

omit [DecidableEq M] in
/-- The parent of a module depends on the table only. -/
lemma parent?_congr {s s' : Imports M} {name : String}
    (h : ∀ parent bound, parentAttribute name = some (parent, bound) →
      s'.modules.get? parent = s.modules.get? parent) : s'.parent? name = s.parent? name := by
  unfold parent?
  cases hparent : parentAttribute name with
  | none => rfl
  | some location =>
    obtain ⟨parent, bound⟩ := location
    change ((s'.modules.get? parent).join.bind fun p => some (p, bound)) =
      ((s.modules.get? parent).join.bind fun p => some (p, bound))
    rw [h parent bound hparent]

omit [DecidableEq M] in
/-- The parent of a module. -/
lemma parent?_eq_some_iff {name : String} : s.parent? name = some (p, bound) ↔
    ∃ parent, parentAttribute name = some (parent, bound) ∧
      s.modules.get? parent = some (some p) := by
  unfold parent?
  cases hparent : parentAttribute name with
  | none => simp
  | some location =>
    obtain ⟨parent, bound'⟩ := location
    change ((s.modules.get? parent).join.bind fun p => some (p, bound')) = _ ↔ _
    cases hentry : s.modules.get? parent with
    | none => simp [hentry]
    | some entry =>
      cases entry with
      | none => simp [hentry]
      | some p' =>
        simp only [Option.join_some, Option.bind_some, Option.some.injEq, Prod.mk.injEq]
        constructor
        · rintro ⟨rfl, rfl⟩
          exact ⟨parent, ⟨rfl, rfl⟩, hentry⟩
        · rintro ⟨_, ⟨rfl, rfl⟩, h⟩
          rw [hentry] at h
          cases h
          exact ⟨rfl, rfl⟩

/-! ## Registering -/

/-- The module that is registered last under a name. -/
def lastModule (registered : List (String × M)) (name : String) : Option M :=
  (registered.reverse.find? fun r => r.1 = name).map Prod.snd

/-- The module that is registered last with a given parent and attribute. -/
def lastBound (s : Imports M) (registered : List (String × M)) (p : M) (bound : String) :
    Option M :=
  (registered.reverse.find? fun r => s.parent? r.1 = some (p, bound)).map Prod.snd

variable {registered : List (String × M)} {r : String × M} {name : String}

/-- One more module is registered. -/
lemma registerAll_append :
    s.registerAll (registered ++ [r]) = (s.registerAll registered).register r :=
  List.foldl_concat ..

omit [DecidableEq M] in
/-- The last of one more module. -/
lemma lastModule_append : lastModule (registered ++ [r]) name =
    if r.1 = name then some r.2 else lastModule registered name := by
  unfold lastModule
  rw [List.reverse_append, List.reverse_singleton, List.singleton_append, List.find?_cons]
  split
  · next h => rw [if_pos (of_decide_eq_true h)]; rfl
  · next h => rw [if_neg (of_decide_eq_false h)]

omit [DecidableEq M] in
/-- A name under which nothing is registered. -/
lemma lastModule_eq_none_iff :
    lastModule registered name = none ↔ ∀ r ∈ registered, r.1 ≠ name := by
  unfold lastModule
  simp

omit [DecidableEq M] in
/-- The last module of a name is registered. -/
lemma mem_of_lastModule {m : M} (h : lastModule registered name = some m) :
    (name, m) ∈ registered := by
  unfold lastModule at h
  obtain ⟨r, hr, rfl⟩ := Option.map_eq_some_iff.mp h
  have hname := List.find?_some hr
  have hmem := List.mem_reverse.mp (List.mem_of_find?_eq_some hr)
  rwa [← of_decide_eq_true hname]

/-- The table after one registration. -/
lemma modules_register : (s.register r).modules = s.modules.set r.1 (some r.2) := by
  unfold register
  dsimp only
  split <;> rfl

/-- The attributes of a module after one registration. -/
lemma attr_register (hnamespace : (s.namespaces p).isSome = true) :
    (s.register r).attr p bound =
      if (s.register r).parent? r.1 = some (p, bound) then some (some r.2) else s.attr p bound := by
  have hparent : (s.register r).parent? r.1 =
      ({ s with modules := s.modules.set r.1 (some r.2) } : Imports M).parent? r.1 :=
    parent?_congr fun parent bound _ => by rw [modules_register]
  rw [hparent]
  unfold register
  dsimp only
  cases hp : ({ s with modules := s.modules.set r.1 (some r.2) } : Imports M).parent? r.1 with
  | none => rfl
  | some location =>
    obtain ⟨q, bound'⟩ := location
    by_cases hq : p = q
    · subst hq
      obtain ⟨d, hd⟩ := Option.isSome_iff_exists.mp hnamespace
      have hold : s.attr p bound = d.get? bound := by rw [attr, hd]; rfl
      dsimp only
      rw [@attr_modify_self _ _ { s with modules := s.modules.set r.1 (some r.2) } p bound _ d hd,
        Dict.get?_set, hold]
      by_cases hbound : bound = bound'
      · rw [if_pos hbound, if_pos (by rw [hbound])]
      · rw [if_neg hbound, if_neg]
        rintro ⟨⟩
        exact hbound rfl
    · dsimp only
      rw [attr_modify_of_ne hq, if_neg]
      · rfl
      · rintro ⟨⟩
        exact hq rfl

/-- **The table after an import.** -/
lemma get?_modules_registerAll : (s.registerAll registered).modules.get? name =
    match lastModule registered name with
    | some m => some (some m)
    | none => s.modules.get? name := by
  induction registered using List.reverseRecOn with
  | nil => rfl
  | append_singleton registered r ih =>
    rw [registerAll_append, modules_register, Dict.get?_set, lastModule_append]
    by_cases h : r.1 = name
    · rw [if_pos h.symm, if_pos h]
    · rw [if_neg (Ne.symm h), if_neg h, ih]

/-- The path after an import. -/
lemma path_registerAll : (s.registerAll registered).path = s.path := by
  induction registered using List.reverseRecOn with
  | nil => rfl
  | append_singleton registered r ih =>
    rw [registerAll_append, ← ih]
    unfold register
    dsimp only
    split <;> rfl

/-- The objects with a namespace after an import. -/
lemma isSome_registerAll : ((s.registerAll registered).namespaces p).isSome =
    (s.namespaces p).isSome := by
  induction registered using List.reverseRecOn with
  | nil => rfl
  | append_singleton registered r ih =>
    rw [registerAll_append, ← ih]
    unfold register
    dsimp only
    split
    · exact isSome_modify
    · rfl

/-- What is registered under no name of the table, and is new, does not change who is whose parent
among the modules of the table. -/
lemma parent?_registerAll_iff (hkept : ∀ r ∈ registered, s.modules.get? r.1 = none)
    (hnew : ∀ r ∈ registered, r.2 ≠ p) : (s.registerAll registered).parent? name = some (p, bound) ↔
      s.parent? name = some (p, bound) := by
  rw [parent?_eq_some_iff, parent?_eq_some_iff]
  refine exists_congr fun parent => and_congr_right fun _ => ?_
  rw [get?_modules_registerAll]
  cases hlast : lastModule registered parent with
  | none => rfl
  | some m =>
    have hmem := mem_of_lastModule hlast
    have hnone := hkept _ hmem
    have hne := hnew _ hmem
    simp only [Option.some.injEq]
    constructor
    · intro h
      exact absurd h hne
    · intro h
      cases hnone.symm.trans h

/-- What is bound last of one more module. -/
lemma lastBound_append : lastBound s (registered ++ [r]) p bound =
    if s.parent? r.1 = some (p, bound) then some r.2 else lastBound s registered p bound := by
  unfold lastBound
  rw [List.reverse_append, List.reverse_singleton, List.singleton_append, List.find?_cons]
  split
  · next h => rw [if_pos (of_decide_eq_true h)]; rfl
  · next h => rw [if_neg (of_decide_eq_false h)]

/-- **The attributes of a module of the table after an import.** -/
lemma attr_registerAll (hkept : ∀ r ∈ registered, s.modules.get? r.1 = none)
    (hnew : ∀ r ∈ registered, r.2 ≠ p) (hnamespace : (s.namespaces p).isSome = true) :
    (s.registerAll registered).attr p bound =
      match lastBound s registered p bound with
      | some m => some (some m)
      | none => s.attr p bound := by
  induction registered using List.reverseRecOn with
  | nil => rfl
  | append_singleton registered r ih =>
    have hkept' : ∀ r ∈ registered, s.modules.get? r.1 = none := fun r hr =>
      hkept r (List.mem_append_left _ hr)
    have hnew' : ∀ r ∈ registered, r.2 ≠ p := fun r hr => hnew r (List.mem_append_left _ hr)
    have hparent := @parent?_registerAll_iff _ _ s p bound _ r.1 hkept hnew
    have hnamespace' : ((s.registerAll registered).namespaces p).isSome = true := by
      rw [isSome_registerAll, hnamespace]
    rw [lastBound_append]
    rw [registerAll_append] at hparent ⊢
    rw [attr_register hnamespace', ih hkept' hnew']
    by_cases h : s.parent? r.1 = some (p, bound)
    · rw [if_pos h, if_pos (hparent.mpr h)]
    · rw [if_neg h, if_neg fun h' => h (hparent.mp h')]

/-- What is bound last is the last module of its name. -/
lemma exists_of_lastBound {m : M} (h : lastBound s registered p bound = some m) :
    ∃ name, s.parent? name = some (p, bound) ∧ lastModule registered name = some m := by
  induction registered using List.reverseRecOn with
  | nil => cases h
  | append_singleton registered r ih =>
    rw [lastBound_append] at h
    split at h
    · next hr =>
      cases h
      exact ⟨r.1, hr, by rw [lastModule_append, if_pos rfl]⟩
    · next hr =>
      obtain ⟨name, hparent, hlast⟩ := ih h
      refine ⟨name, hparent, ?_⟩
      rw [lastModule_append, if_neg, hlast]
      rintro rfl
      exact hr hparent

/-- A registered module with a parent is bound, if the parent has a namespace. -/
lemma lastBound_ne_none {r : String × M} (hr : r ∈ registered)
    (h : s.parent? r.1 = some (p, bound)) : lastBound s registered p bound ≠ none := by
  unfold lastBound
  rw [Ne, Option.map_eq_none_iff, List.find?_eq_none]
  intro hall
  exact hall r (List.mem_reverse.mpr hr) (decide_eq_true h)

/-! ## Names in the order of their registration -/

/-- The names without those that came before. -/
def firstNames : List String → List String
  | [] => []
  | name :: names => name :: (firstNames names).filter (· ≠ name)

/-- The keys of the table after an import: the new ones are behind the old ones. -/
lemma keys_registerAll : (s.registerAll registered).modules.entries.map Prod.fst =
    s.modules.entries.map Prod.fst ++
      (firstNames (registered.map Prod.fst)).filter (· ∉ s.modules.entries.map Prod.fst) := by
  induction registered generalizing s with
  | nil => simp [registerAll, firstNames]
  | cons r registered ih =>
    have hcons : s.registerAll (r :: registered) = (s.register r).registerAll registered := rfl
    rw [hcons, ih, modules_register, Dict.keys_set, List.map_cons, firstNames]
    split
    · next h =>
      rw [List.filter_cons_of_neg (by simpa using h), List.filter_filter]
      refine congrArg _ (List.filter_congr fun n _ => ?_)
      by_cases hn : n = r.1
      · rw [hn]
        simpa using h
      · simp [hn]
    · next h =>
      rw [List.filter_cons_of_pos (by simpa using h), List.append_assoc, List.singleton_append,
        List.filter_filter]
      refine congrArg _ (congrArg _ (List.filter_congr fun n _ => ?_))
      rw [← Bool.decide_and]
      refine decide_eq_decide.mpr ?_
      rw [List.mem_append, List.mem_singleton, not_or]

/-! ## Restoring attributes -/

/-- The value of an attribute of a module, after one removed module. -/
def restoredValue (s : Imports M) (p : M) (bound : String) (value : Option (Option M))
    (removed : String × Option M) : Option (Option M) :=
  if s.parent? removed.1 = some (p, bound) then
    match s.modules.get? removed.1 with
    | some restored => some restored
    | none => if value = some removed.2 then none else value
  else value

variable {e : String × Option M} {removed : List (String × Option M)}

/-- One removed module leaves the table as it is. -/
lemma modules_restoreAttribute : (s.restoreAttribute e).modules = s.modules := by
  unfold restoreAttribute
  split
  · split
    · rfl
    · split <;> rfl
  · rfl

/-- One removed module leaves the path as it is. -/
lemma path_restoreAttribute : (s.restoreAttribute e).path = s.path := by
  unfold restoreAttribute
  split
  · split
    · rfl
    · split <;> rfl
  · rfl

/-- The objects with a namespace after one removed module. -/
lemma isSome_restoreAttribute : ((s.restoreAttribute e).namespaces p).isSome =
    (s.namespaces p).isSome := by
  unfold restoreAttribute
  split
  · split
    · exact isSome_modify
    · split
      · exact isSome_modify
      · rfl
  · rfl

/-- The attributes of a module after one removed module. -/
lemma attr_restoreAttribute (hnamespace : (s.namespaces p).isSome = true) :
    (s.restoreAttribute e).attr p bound = s.restoredValue p bound (s.attr p bound) e := by
  obtain ⟨d, hd⟩ := Option.isSome_iff_exists.mp hnamespace
  have hold : ∀ name, s.attr p name = d.get? name := fun name => by rw [attr, hd]; rfl
  unfold restoreAttribute restoredValue
  cases hparent : s.parent? e.1 with
  | none => rfl
  | some location =>
    obtain ⟨q, bound'⟩ := location
    dsimp only
    by_cases hlocation : q = p ∧ bound' = bound
    · obtain ⟨rfl, rfl⟩ := hlocation
      rw [if_pos rfl]
      cases s.modules.get? e.1 with
      | some restored =>
        dsimp only
        rw [attr_modify_self hd, Dict.get?_set, if_pos rfl]
      | none =>
        dsimp only
        split
        · rw [attr_modify_self hd]
          exact Dict.get?_filterKeys_of_not (by simp)
        · rfl
    · have hne : some (q, bound') ≠ some (p, bound) := by
        rintro ⟨⟩
        exact hlocation ⟨rfl, rfl⟩
      have hother : ∀ f : Dict (Option M) → Dict (Option M),
          (∀ d, bound' ≠ bound → (f d).get? bound = d.get? bound) →
          (s.modify q f).attr p bound = s.attr p bound := by
        intro f hf
        by_cases hq : p = q
        · subst hq
          rw [attr_modify_self hd, hf d fun h => hlocation ⟨rfl, h⟩, hold]
        · exact attr_modify_of_ne hq
      rw [if_neg hne]
      split
      · exact hother _ fun d hbound => by rw [Dict.get?_set, if_neg (Ne.symm hbound)]
      · split
        · exact hother _ fun d hbound => Dict.get?_filterKeys (by simpa using Ne.symm hbound)
        · rfl

/-- The value of an attribute depends on the table only. -/
lemma restoredValue_congr {s s' : Imports M}
    (h : ∀ name, s'.modules.get? name = s.modules.get? name) :
    s'.restoredValue p bound = s.restoredValue p bound := by
  funext value e
  have hparent : s'.parent? e.1 = s.parent? e.1 := parent?_congr fun _ _ _ => h _
  rw [restoredValue, restoredValue, hparent, h]

/-- **The attributes of a module after the removed modules.** -/
lemma attr_foldl_restoreAttribute (hnamespace : (s.namespaces p).isSome = true) :
    (removed.foldl restoreAttribute s).attr p bound =
      removed.foldl (s.restoredValue p bound) (s.attr p bound) := by
  induction removed generalizing s with
  | nil => rfl
  | cons e removed ih =>
    rw [List.foldl_cons, List.foldl_cons, ih (by rw [isSome_restoreAttribute, hnamespace]),
      attr_restoreAttribute hnamespace,
      @restoredValue_congr _ _ p bound s (s.restoreAttribute e) fun name => by
        rw [modules_restoreAttribute]]

/-- The removed modules leave the table as it is. -/
lemma modules_foldl_restoreAttribute :
    (removed.foldl restoreAttribute s).modules = s.modules := by
  induction removed generalizing s with
  | nil => rfl
  | cons e removed ih => rw [List.foldl_cons, ih, modules_restoreAttribute]

/-- The removed modules leave the path as it is. -/
lemma path_foldl_restoreAttribute : (removed.foldl restoreAttribute s).path = s.path := by
  induction removed generalizing s with
  | nil => rfl
  | cons e removed ih => rw [List.foldl_cons, ih, path_restoreAttribute]

/-- The objects with a namespace after the removed modules. -/
lemma isSome_foldl_restoreAttribute :
    ((removed.foldl restoreAttribute s).namespaces p).isSome = (s.namespaces p).isSome := by
  induction removed generalizing s with
  | nil => rfl
  | cons e removed ih => rw [List.foldl_cons, ih, isSome_restoreAttribute]

/-- A removed module with a given parent and attribute whose name is registered again. -/
def rebinds (s : Imports M) (p : M) (bound name : String) : Bool :=
  s.parent? name = some (p, bound) && (s.modules.get? name).isSome

/-- An attribute for a name that is registered again gets the module of the last such name. -/
lemma foldl_restoredValue_of_rebinds {name : String}
    (hlast : ((removed.map Prod.fst).filter (s.rebinds p bound)).getLast? = some name)
    (hnew : ∀ e ∈ removed, s.modules.get? name ≠ some e.2) (value : Option (Option M)) :
    removed.foldl (s.restoredValue p bound) value = s.modules.get? name := by
  induction removed using List.reverseRecOn with
  | nil => cases hlast
  | append_singleton removed e ih =>
    rw [List.foldl_append, List.foldl_cons, List.foldl_nil]
    rw [List.map_append, List.map_singleton, List.filter_append] at hlast
    by_cases hrebinds : s.rebinds p bound e.1 = true
    · rw [List.filter_singleton, hrebinds, cond_true, List.getLast?_concat] at hlast
      cases hlast
      rw [rebinds, Bool.and_eq_true] at hrebinds
      obtain ⟨restored, hrestored⟩ := Option.isSome_iff_exists.mp hrebinds.2
      rw [restoredValue, if_pos (of_decide_eq_true hrebinds.1), hrestored]
    · rw [List.filter_singleton, Bool.eq_false_iff.mpr hrebinds, cond_false,
        List.append_nil] at hlast
      rw [ih hlast fun e he => hnew e (List.mem_append_left _ he), restoredValue]
      split
      · next hparent =>
        cases hget : s.modules.get? e.1 with
        | some restored =>
          exact absurd (by rw [rebinds, hget, decide_eq_true hparent]; rfl) hrebinds
        | none =>
          dsimp only
          rw [if_neg (hnew e (List.mem_append_right _ List.mem_cons_self))]
      · rfl

/-- Any other attribute is lost if it is one of the removed modules with that parent. -/
lemma foldl_restoredValue_of_not {value : Option (Option M)}
    (hnone : ∀ e ∈ removed, s.rebinds p bound e.1 = false) :
    removed.foldl (s.restoredValue p bound) value =
      if ∃ e ∈ removed, s.parent? e.1 = some (p, bound) ∧ value = some e.2 then none
      else value := by
  induction removed generalizing value with
  | nil => simp
  | cons e removed ih =>
    have hrest := fun e he => hnone e (List.mem_cons_of_mem _ he)
    rw [List.foldl_cons, ih hrest, restoredValue]
    by_cases hparent : s.parent? e.1 = some (p, bound)
    · have hget : s.modules.get? e.1 = none := by
        have h := hnone e List.mem_cons_self
        rw [rebinds, decide_eq_true hparent, Bool.true_and] at h
        exact Option.isNone_iff_eq_none.mp (Option.isSome_eq_false_iff.mp h)
      rw [if_pos hparent, hget]
      dsimp only
      by_cases hvalue : value = some e.2
      · rw [if_pos hvalue]
        exact (ite_self _).trans (if_pos ⟨e, List.mem_cons_self, hparent, hvalue⟩).symm
      · rw [if_neg hvalue]
        refine if_congr ?_ rfl rfl
        simp only [List.mem_cons, exists_eq_or_imp, hvalue, and_false, false_or]
    · rw [if_neg hparent]
      refine if_congr ?_ rfl rfl
      simp only [List.mem_cons, exists_eq_or_imp, hparent, false_and, false_or]

/-! ## The table after a failed resolution -/

section Failed

variable {belongs : M → Bool} {moduleName projectDir root : String}

/-- The names of the entries that are taken out of the table. -/
def evictedNames (belongs : M → Bool) (moduleName : String) (s : Imports M) : List String :=
  (s.evicted belongs (s.conflictingRoot belongs moduleName)).map Prod.fst

omit [DecidableEq M] in
/-- The table in which an import starts. -/
lemma get?_modules_entered : (s.entered belongs moduleName projectDir).modules.get? name =
    if name ∈ s.evictedNames belongs moduleName then none else s.modules.get? name := by
  change (s.modules.filterKeys fun name => name ∉ s.evictedNames belongs moduleName).get? name = _
  split
  · next h => exact Dict.get?_filterKeys_of_not (by simpa using h)
  · next h => exact Dict.get?_filterKeys (by simpa using h)

/-- The table of a failed resolution, before attributes are restored. -/
def cleared (belongs : M → Bool) (moduleName root : String) (s loaded : Imports M) : Imports M :=
  { loaded.without ((loaded.removed root (s.modules.entries.map Prod.fst)
      (s.evictedNames belongs moduleName)).map Prod.fst) with
    modules := (loaded.modules.filterKeys fun name =>
      name ∉ (loaded.removed root (s.modules.entries.map Prod.fst)
        (s.evictedNames belongs moduleName)).map Prod.fst).setAll
          (s.evicted belongs (s.conflictingRoot belongs moduleName)) }

variable {loaded : Imports M}

omit [DecidableEq M] in
/-- The names of the entries that are removed. -/
lemma mem_removed {before evicted : List String} :
    name ∈ (loaded.removed root before evicted).map Prod.fst ↔
      (∃ v, loaded.modules.get? name = some v) ∧ isAtOrBelow name root = true ∧
        (name ∉ before ∨ name ∈ evicted) := by
  unfold removed
  rw [List.mem_map]
  constructor
  · rintro ⟨e, he, rfl⟩
    rw [List.mem_filter, Bool.and_eq_true, Bool.or_eq_true, decide_eq_true_eq,
      decide_eq_true_eq] at he
    exact ⟨⟨e.2, Dict.get?_eq_some_iff.mpr he.1⟩, he.2⟩
  · rintro ⟨⟨v, hv⟩, h⟩
    refine ⟨(name, v), List.mem_filter.mpr ⟨Dict.get?_eq_some_iff.mp hv, ?_⟩, rfl⟩
    rwa [Bool.and_eq_true, Bool.or_eq_true, decide_eq_true_eq, decide_eq_true_eq]

omit [DecidableEq M] in
/-- The entries that were taken out are put back. -/
lemma get?_cleared_of_mem (h : name ∈ s.evictedNames belongs moduleName) :
    (s.cleared belongs moduleName root loaded).modules.get? name = s.modules.get? name := by
  obtain ⟨e, he, rfl⟩ := List.mem_map.mp h
  have hnodup : ((s.evicted belongs (s.conflictingRoot belongs moduleName)).map Prod.fst).Nodup :=
    s.modules.nodup.sublist (List.filter_sublist.map Prod.fst)
  have hold : s.modules.get? e.1 = some e.2 :=
    Dict.get?_eq_some_iff.mpr (List.mem_filter.mp he).1
  rw [hold]
  exact Dict.get?_setAll_of_mem hnodup he

omit [DecidableEq M] in
/-- The other entries are removed or kept. -/
lemma get?_cleared_of_notMem (h : name ∉ s.evictedNames belongs moduleName) :
    (s.cleared belongs moduleName root loaded).modules.get? name =
      if name ∈ (loaded.removed root (s.modules.entries.map Prod.fst)
        (s.evictedNames belongs moduleName)).map Prod.fst then none
      else loaded.modules.get? name := by
  unfold cleared
  dsimp only
  rw [Dict.get?_setAll_of_notMem h]
  split
  · next hmem => exact Dict.get?_filterKeys_of_not (by simpa using hmem)
  · next hmem => exact Dict.get?_filterKeys (by simpa using hmem)

/-- **The table is restored**, if nothing is registered under a name that is kept. -/
lemma get?_cleared (hreg : Registers s root registered)
    (hkept : ∀ r ∈ registered, (s.entered belongs moduleName projectDir).modules.get? r.1 = none) :
    (s.cleared belongs moduleName root
      ((s.entered belongs moduleName projectDir).registerAll registered)).modules.get? name =
        s.modules.get? name := by
  by_cases hevicted : name ∈ s.evictedNames belongs moduleName
  · exact get?_cleared_of_mem hevicted
  rw [get?_cleared_of_notMem hevicted, get?_modules_registerAll, get?_modules_entered,
    if_neg hevicted]
  cases hlast : lastModule registered name with
  | none =>
    dsimp only
    split
    · next hremoved =>
      obtain ⟨⟨v, hv⟩, -, hbefore⟩ := mem_removed.mp hremoved
      exact (Dict.get?_eq_none_iff.mpr (hbefore.resolve_right hevicted)).symm
    · rfl
  | some m =>
    have hmem := mem_of_lastModule hlast
    have hnone := hkept _ hmem
    rw [get?_modules_entered, if_neg hevicted] at hnone
    rw [hnone, if_pos]
    refine mem_removed.mpr ⟨⟨some m, ?_⟩, hreg.below _ hmem, .inl (Dict.get?_eq_none_iff.mp hnone)⟩
    rw [get?_modules_registerAll, hlast]

/-- The order in which removed modules are visited: by depth, and by their registration. -/
def restoreOrder (registered : List (String × M)) : List String :=
  (firstNames (registered.map Prod.fst)).insertionSort fun a b => dotCount a ≤ dotCount b

/-- The names in the order of their registration are the registered ones. -/
lemma mem_firstNames {names : List String} : name ∈ firstNames names ↔ name ∈ names := by
  induction names with
  | nil => rfl
  | cons first names ih =>
    rw [firstNames, List.mem_cons, List.mem_cons, List.mem_filter, ih]
    by_cases h : name = first <;> simp [h]

omit [DecidableEq M] in
/-- Nothing that is registered was in the table, unless it was taken out. -/
lemma notMem_before (h : (s.entered belongs moduleName projectDir).modules.get? name = none) :
    name ∉ s.modules.entries.map Prod.fst ∨ name ∈ s.evictedNames belongs moduleName := by
  by_cases hevicted : name ∈ s.evictedNames belongs moduleName
  · exact .inr hevicted
  · rw [get?_modules_entered, if_neg hevicted] at h
    exact .inl (Dict.get?_eq_none_iff.mp h)

/-- The names of the removed modules, in the order of their registration. -/
lemma map_removed (hreg : Registers s root registered)
    (hkept : ∀ r ∈ registered, (s.entered belongs moduleName projectDir).modules.get? r.1 = none) :
    (((s.entered belongs moduleName projectDir).registerAll registered).removed root
      (s.modules.entries.map Prod.fst) (s.evictedNames belongs moduleName)).map Prod.fst =
        firstNames (registered.map Prod.fst) := by
  have hfilter : ∀ entries : List (String × Option M), (entries.filter fun entry =>
      isAtOrBelow entry.1 root && (decide (entry.1 ∉ s.modules.entries.map Prod.fst) ||
        decide (entry.1 ∈ s.evictedNames belongs moduleName))).map Prod.fst =
      (entries.map Prod.fst).filter fun name =>
        isAtOrBelow name root && (decide (name ∉ s.modules.entries.map Prod.fst) ||
          decide (name ∈ s.evictedNames belongs moduleName)) := by
    intro entries
    rw [List.filter_map]
    rfl
  unfold removed
  rw [hfilter, keys_registerAll, List.filter_append]
  have hold : (((s.entered belongs moduleName projectDir).modules.entries.map Prod.fst).filter
      fun name => isAtOrBelow name root && (decide (name ∉ s.modules.entries.map Prod.fst) ||
        decide (name ∈ s.evictedNames belongs moduleName))) = [] := by
    rw [List.filter_eq_nil_iff]
    intro name hname h
    obtain ⟨v, hv⟩ := Dict.exists_get? hname
    rw [get?_modules_entered] at hv
    split at hv
    · cases hv
    · next hevicted =>
      have hbefore : name ∈ s.modules.entries.map Prod.fst := by
        by_contra hbefore
        cases (Dict.get?_eq_none_iff.mpr hbefore).symm.trans hv
      simp [hevicted, hbefore] at h
  rw [hold, List.nil_append, List.filter_filter]
  refine List.filter_eq_self.mpr fun name hname => ?_
  obtain ⟨r, hr, rfl⟩ := List.mem_map.mp (mem_firstNames.mp hname)
  have hnone := hkept r hr
  have hbefore := notMem_before hnone
  rw [Bool.and_eq_true, Bool.and_eq_true, Bool.or_eq_true, decide_eq_true_eq, decide_eq_true_eq,
    decide_eq_true_eq]
  exact ⟨⟨hreg.below r hr, hbefore⟩, Dict.get?_eq_none_iff.mp hnone⟩

/-- A removed entry is the last module that is registered under its name. -/
lemma lastModule_of_mem_removed {e : String × Option M} (hreg : Registers s root registered)
    (hkept : ∀ r ∈ registered, (s.entered belongs moduleName projectDir).modules.get? r.1 = none)
    (he : e ∈ ((s.entered belongs moduleName projectDir).registerAll registered).removed root
      (s.modules.entries.map Prod.fst) (s.evictedNames belongs moduleName)) :
    ∃ m, e.2 = some m ∧ lastModule registered e.1 = some m := by
  have hname : e.1 ∈ firstNames (registered.map Prod.fst) := by
    rw [← map_removed hreg hkept]
    exact List.mem_map_of_mem he
  have hentry := Dict.get?_eq_some_iff.mpr (List.mem_filter.mp he).1
  rw [get?_modules_registerAll] at hentry
  cases hlast : lastModule registered e.1 with
  | some m =>
    rw [hlast] at hentry
    exact ⟨m, (Option.some.inj hentry).symm, rfl⟩
  | none =>
    obtain ⟨r, hr, heq⟩ := List.mem_map.mp (mem_firstNames.mp hname)
    exact absurd heq (lastModule_eq_none_iff.mp hlast r hr)

/-- The removed modules in the order in which they are visited. -/
def visited (belongs : M → Bool) (moduleName projectDir root : String)
    (registered : List (String × M)) (s : Imports M) : List (String × Option M) :=
  (((s.entered belongs moduleName projectDir).registerAll registered).removed root
    (s.modules.entries.map Prod.fst) (s.evictedNames belongs moduleName)).insertionSort
      fun a b => dotCount a.1 ≤ dotCount b.1

/-- What the failed resolution of an entrypoint leaves. -/
def failed (belongs : M → Bool) (moduleName projectDir root : String)
    (registered : List (String × M)) (s : Imports M) : Imports M :=
  (s.visited belongs moduleName projectDir root registered).foldl restoreAttribute
    (s.cleared belongs moduleName root
      ((s.entered belongs moduleName projectDir).registerAll registered))

/-- A failed resolution restores the modules, their attributes and the path. -/
lemma resolve_error {α : Type} (err : PyError) :
    (resolve (α := α) belongs moduleName projectDir registered (.error err) s).2 =
      { s.failed belongs moduleName projectDir (topLevel moduleName) registered with
        path := s.path } := by
  have hpath : (s.failed belongs moduleName projectDir (topLevel moduleName) registered).path =
      enterPath projectDir s.path := by
    unfold failed
    rw [path_foldl_restoreAttribute]
    exact path_registerAll
  have hleave := leavePath_enterPath projectDir s.path
  rw [← hpath] at hleave
  exact congrArg (fun path => { s.failed belongs moduleName projectDir (topLevel moduleName)
    registered with path := path }) hleave

/-- The table after a failed resolution. -/
lemma modules_failed : (s.failed belongs moduleName projectDir root registered).modules =
    (s.cleared belongs moduleName root
      ((s.entered belongs moduleName projectDir).registerAll registered)).modules :=
  modules_foldl_restoreAttribute

/-- The condition under which a failed resolution restores its namespace: nothing is registered
under a name that is kept; an attribute for a name that is registered again was the module of the
last such name, in the order in which they are visited; and any other attribute that the import
binds in a module that is kept was not there. -/
structure Restorable (belongs : M → Bool) (moduleName projectDir root : String)
    (registered : List (String × M)) (s : Imports M) : Prop where
  kept : ∀ r ∈ registered, (s.entered belongs moduleName projectDir).modules.get? r.1 = none
  rebound : ∀ package p bound name, isAtOrBelow package root = true →
    s.modules.get? package = some (some p) → (s.namespaces p).isSome = true →
    ((restoreOrder registered).filter (s.rebinds p bound)).getLast? = some name →
      s.attr p bound = s.modules.get? name
  added : ∀ package p bound, isAtOrBelow package root = true →
    s.modules.get? package = some (some p) → (s.namespaces p).isSome = true →
    (restoreOrder registered).filter (s.rebinds p bound) = [] →
    (∃ r ∈ registered, (s.entered belongs moduleName projectDir).parent? r.1 = some (p, bound)) →
      s.attr p bound = none

/-- The names of the removed modules, as they are visited. -/
lemma map_visited (hreg : Registers s root registered)
    (hkept : ∀ r ∈ registered, (s.entered belongs moduleName projectDir).modules.get? r.1 = none) :
    (s.visited belongs moduleName projectDir root registered).map Prod.fst =
      restoreOrder registered := by
  rw [restoreOrder, ← map_removed hreg hkept]
  exact List.map_insertionSort (r := fun a b : String × Option M => dotCount a.1 ≤ dotCount b.1)
    (s := fun a b : String => dotCount a ≤ dotCount b) Prod.fst _ fun _ _ _ _ => Iff.rfl

/-- A visited entry is the last module that is registered under its name. -/
lemma lastModule_of_mem_visited {e : String × Option M} (hreg : Registers s root registered)
    (hkept : ∀ r ∈ registered, (s.entered belongs moduleName projectDir).modules.get? r.1 = none)
    (he : e ∈ s.visited belongs moduleName projectDir root registered) :
    ∃ m, e.2 = some m ∧ lastModule registered e.1 = some m :=
  lastModule_of_mem_removed hreg hkept ((List.mem_insertionSort _).mp he)

omit [DecidableEq M] in
/-- A parent that is kept is a parent in the table before. -/
lemma parent?_of_entered
    (h : (s.entered belongs moduleName projectDir).parent? name = some (p, bound)) :
    s.parent? name = some (p, bound) := by
  obtain ⟨parent, hparent, hentry⟩ := parent?_eq_some_iff.mp h
  refine parent?_eq_some_iff.mpr ⟨parent, hparent, ?_⟩
  rw [get?_modules_entered] at hentry
  split at hentry
  · cases hentry
  · exact hentry

/-- **The attributes of a module of the package after a failed resolution.** -/
lemma attr_failed (hreg : Registers s root registered)
    (hkept : ∀ r ∈ registered, (s.entered belongs moduleName projectDir).modules.get? r.1 = none)
    {package : String} (hp : s.modules.get? package = some (some p))
    (hnamespace : (s.namespaces p).isSome = true) :
    (s.failed belongs moduleName projectDir root registered).attr p bound =
      match ((restoreOrder registered).filter (s.rebinds p bound)).getLast? with
      | some name => s.modules.get? name
      | none =>
        if ∃ r ∈ registered, (s.entered belongs moduleName projectDir).parent? r.1 =
          some (p, bound) then none
        else s.attr p bound := by
  have hnew : ∀ r ∈ registered, r.2 ≠ p := by
    rintro r hr rfl
    exact hreg.unregistered r hr package hp
  have hloaded : ((s.entered belongs moduleName projectDir).registerAll registered).attr p bound =
      match lastBound (s.entered belongs moduleName projectDir) registered p bound with
      | some m => some (some m)
      | none => s.attr p bound := attr_registerAll hkept hnew hnamespace
  have hcleared : ((s.cleared belongs moduleName root
      ((s.entered belongs moduleName projectDir).registerAll registered)).namespaces p).isSome =
        true := by
    change (((s.entered belongs moduleName projectDir).registerAll registered).namespaces
      p).isSome = true
    rw [isSome_registerAll]
    exact hnamespace
  have hvalue : (s.failed belongs moduleName projectDir root registered).attr p bound =
      List.foldl _ (((s.entered belongs moduleName projectDir).registerAll registered).attr p bound)
        _ := attr_foldl_restoreAttribute hcleared
  rw [restoredValue_congr fun name => get?_cleared hreg hkept, hloaded] at hvalue
  rw [hvalue]
  have hvisited := map_visited hreg hkept
  have hlast := fun (e : String × Option M) he =>
    @lastModule_of_mem_visited _ _ s registered belongs moduleName projectDir root e hreg hkept he
  cases hrebinds : ((restoreOrder registered).filter (s.rebinds p bound)).getLast? with
  | some name =>
    rw [← hvisited] at hrebinds
    refine foldl_restoredValue_of_rebinds hrebinds (fun e he => ?_) _
    obtain ⟨m, hm, hmodule⟩ := hlast e he
    rw [hm]
    exact hreg.unregistered _ (mem_of_lastModule hmodule) name
  | none =>
    rw [List.getLast?_eq_none_iff, ← hvisited, List.filter_eq_nil_iff] at hrebinds
    rw [foldl_restoredValue_of_not fun e he =>
      Bool.eq_false_iff.mpr (hrebinds e.1 (List.mem_map_of_mem he))]
    cases hbound : lastBound (s.entered belongs moduleName projectDir) registered p bound with
    | some m =>
      obtain ⟨name, hparent, hmodule⟩ := exists_of_lastBound hbound
      have hregistered := mem_of_lastModule hmodule
      dsimp only
      rw [if_pos, if_pos ⟨_, hregistered, hparent⟩]
      have hname : name ∈ restoreOrder registered :=
        (List.mem_insertionSort _).mpr (mem_firstNames.mpr (List.mem_map_of_mem hregistered))
      rw [← hvisited] at hname
      obtain ⟨e, he, rfl⟩ := List.mem_map.mp hname
      obtain ⟨m', hm', hmodule'⟩ := hlast e he
      refine ⟨e, he, parent?_of_entered hparent, ?_⟩
      rw [hm', ← hmodule', hmodule]
    | none =>
      dsimp only
      rw [if_neg, if_neg]
      · rintro ⟨r, hr, hparent⟩
        exact lastBound_ne_none hr hparent hbound
      · rintro ⟨e, he, -, hvalue⟩
        obtain ⟨m, hm, hmodule⟩ := hlast e he
        rw [hm] at hvalue
        exact hreg.unbound _ (mem_of_lastModule hmodule) package p hp bound hvalue

/-- **A failed resolution restores its namespace** exactly under this condition. -/
theorem restored_iff {α : Type} (hreg : Registers s (topLevel moduleName) registered)
    (err : PyError) : Restored (topLevel moduleName) s
      (resolve (α := α) belongs moduleName projectDir registered (.error err) s).2 ↔
        Restorable belongs moduleName projectDir (topLevel moduleName) registered s := by
  rw [resolve_error]
  constructor
  · intro h
    have hkept : ∀ r ∈ registered,
        (s.entered belongs moduleName projectDir).modules.get? r.1 = none := by
      intro r hr
      by_contra hentry
      obtain ⟨v, hv⟩ := Option.ne_none_iff_exists'.mp hentry
      rw [get?_modules_entered] at hv
      split at hv
      · cases hv
      next hevicted =>
      cases hmodule : lastModule registered r.1 with
      | none => exact lastModule_eq_none_iff.mp hmodule r hr rfl
      | some m =>
        have hmodules := h.modules r.1 (hreg.below r hr)
        change (s.failed belongs moduleName projectDir (topLevel moduleName)
          registered).modules.get? r.1 = _ at hmodules
        have hkeep : r.1 ∉ (((s.entered belongs moduleName projectDir).registerAll
            registered).removed (topLevel moduleName) (s.modules.entries.map Prod.fst)
              (s.evictedNames belongs moduleName)).map Prod.fst := by
          rw [mem_removed]
          rintro ⟨-, -, hbefore⟩
          exact Option.some_ne_none _
            (hv.symm.trans (Dict.get?_eq_none_iff.mpr (hbefore.resolve_right hevicted)))
        rw [modules_failed, get?_cleared_of_notMem hevicted, if_neg hkeep,
          get?_modules_registerAll, hmodule] at hmodules
        exact hreg.unregistered _ (mem_of_lastModule hmodule) r.1 hmodules.symm
    refine ⟨hkept, ?_, ?_⟩
    · intro package p bound name hpackage hp hnamespace hlast
      have hattr := h.attributes package p hpackage hp bound
      change (s.failed belongs moduleName projectDir (topLevel moduleName) registered).attr p
        bound = _ at hattr
      rw [attr_failed hreg hkept hp hnamespace, hlast] at hattr
      exact hattr.symm
    · intro package p bound hpackage hp hnamespace hnil hbound
      have hattr := h.attributes package p hpackage hp bound
      change (s.failed belongs moduleName projectDir (topLevel moduleName) registered).attr p
        bound = _ at hattr
      rw [attr_failed hreg hkept hp hnamespace, hnil, List.getLast?_nil, if_pos hbound] at hattr
      exact hattr.symm
  · intro h
    refine ⟨fun name _ => ?_, fun package p hpackage hp bound => ?_, rfl⟩
    · change (s.failed belongs moduleName projectDir (topLevel moduleName)
        registered).modules.get? name = _
      rw [modules_failed, get?_cleared hreg h.kept]
    · change (s.failed belongs moduleName projectDir (topLevel moduleName) registered).attr p
        bound = _
      by_cases hnamespace : (s.namespaces p).isSome = true
      · rw [attr_failed hreg h.kept hp hnamespace]
        cases hlast : ((restoreOrder registered).filter (s.rebinds p bound)).getLast? with
        | some name => exact (h.rebound package p bound name hpackage hp hnamespace hlast).symm
        | none =>
          dsimp only
          split
          · next hbound =>
            exact (h.added package p bound hpackage hp hnamespace
              (List.getLast?_eq_none_iff.mp hlast) hbound).symm
          · rfl
      · have hnone : ∀ t : Imports M, (t.namespaces p).isSome = (s.namespaces p).isSome →
            t.attr p bound = none := by
          intro t ht
          rw [Bool.not_eq_true] at hnamespace
          rw [hnamespace, Option.isSome_eq_false_iff, Option.isNone_iff_eq_none] at ht
          rw [attr, ht]
          rfl
        rw [hnone s rfl]
        refine hnone _ ?_
        unfold failed
        rw [isSome_foldl_restoreAttribute]
        exact isSome_registerAll

end Failed

/-! ## An attribute that is lost -/

/-- A package of the project, with an attribute `tools` that is no module. -/
def packageSample : Imports ℕ where
  modules := .ofEntries [("app", some 1)]
  namespaces p := if p = 1 then some (.ofEntries [("tools", some 7)]) else none
  path := ["/usr/lib", "/srv/app"]

/-- The modules of the sample. -/
lemma get?_packageSample {name : String} {entry : Option ℕ}
    (h : packageSample.modules.get? name = some entry) : name = "app" ∧ entry = some 1 := by
  have hmem : (name, entry) ∈ [("app", some 1)] := Dict.get?_eq_some_iff.mp h
  cases List.mem_singleton.mp hmem
  exact ⟨rfl, rfl⟩

/-- A new module below the package of the sample. -/
lemma registers_packageSample {name : String} (h : isAtOrBelow name "app" = true) :
    Registers packageSample "app" [(name, 9)] where
  below r hr := by
    obtain rfl := List.mem_singleton.mp hr
    exact h
  unregistered r hr name hentry := by
    obtain rfl := List.mem_singleton.mp hr
    cases (get?_packageSample hentry).2
  unbound r hr name p hp bound hattr := by
    obtain rfl := List.mem_singleton.mp hr
    cases (get?_packageSample hp).2
    have hmem : (bound, some 9) ∈ [("tools", some 7)] := Dict.get?_eq_some_iff.mp hattr
    cases List.mem_singleton.mp hmem

/-- **An attribute is lost**: the module `app.tools` is bound over the attribute `tools` of the
package `app`, and taken out of it when the resolution fails. -/
theorem attribute_lost : ¬ ∀ (s : Imports ℕ) (registered : List (String × ℕ)),
    Registers s (topLevel "app.main") registered →
      Restored (topLevel "app.main") s (resolve (α := Unit) (fun _ => true) "app.main" "/srv/app"
        registered (.error (.valueError "")) s).2 := by
  intro h
  have hrestored := h packageSample [("app.tools", 9)] (registers_packageSample (by decide))
  have hattr := hrestored.attributes "app" 1 (by decide) (by decide) "tools"
  exact absurd hattr (by decide)

/-- Without such an attribute, the failed resolution restores the package. -/
theorem package_restored : Restored (topLevel "app.main") packageSample
    (resolve (α := Unit) (fun _ => true) "app.main" "/srv/app" [("app.extra", 9)]
      (.error (.valueError "")) packageSample).2 := by
  have hregisters : Registers packageSample (topLevel "app.main") [("app.extra", 9)] :=
    registers_packageSample (by decide)
  refine (restored_iff hregisters (.valueError "")).mpr ⟨?_, ?_, ?_⟩
  · intro r hr
    obtain rfl := List.mem_singleton.mp hr
    decide
  · intro package p bound name _ _ _ hlast
    have hrebinds : packageSample.rebinds p bound "app.extra" = false := by
      have hget : packageSample.modules.get? "app.extra" = none := by decide
      rw [rebinds, hget]
      exact Bool.and_false _
    have horder : restoreOrder [("app.extra", 9)] = ["app.extra"] := rfl
    rw [horder, List.filter_singleton, hrebinds] at hlast
    cases hlast
  · rintro package p bound _ _ _ _ ⟨r, hr, hparent⟩
    obtain rfl := List.mem_singleton.mp hr
    have hsample : (packageSample.entered (fun _ => true) "app.main" "/srv/app").parent?
      "app.extra" = some (1, "extra") := by decide
    cases hsample.symm.trans hparent
    decide

end Imports
