import RpaCore.Graph.Reach
import RpaCore.Model.Value
import Mathlib.Data.Finset.Card
import Mathlib.Data.Fintype.Card

set_option relaxedAutoImplicit false
set_option autoImplicit false

/-!
# JSON safety of object graphs

`_json_state.py` as it walks the objects of a program: containers hold references, so that they
can be shared and can contain themselves. The identities of the containers that are being walked
are kept in a mutable set; here the set is passed on from call to call.

## Main definitions

* `ObjectGraph` — the objects a value can refer to.
* `ObjectGraph.validateJsonObject` — `validate_json_object`, cut off at a recursion depth.
* `ObjectGraph.IsJsonObject` — what it accepts, in terms of what can be reached.
* `ObjectGraph.unfold` — the tree that an acyclic object unfolds to.

## Main results

* `validate_json_object_exact` — the validation ends, accepts exactly the acyclic JSON objects,
  and leaves no identity behind.
* `ObjectGraph.exists_unfold_iff`, `ObjectGraph.unfold_isJsonObject_iff` — the acyclic objects are
  those that unfold to a tree, and the check of the tree is the check of the graph.
-/

open Relation

/-- A Python object that refers to objects of type `V`. A `float` without a value is a NaN or an
infinity; `object` is any value with no JSON form. -/
inductive PyNode (V : Type)
  | none
  | str (s : String)
  | bool (b : Bool)
  | int (n : ℤ)
  | float (v : Option ℚ)
  | list (items : List V)
  | dict (entries : List (V × V))
  | object (typeName : String)

/-- The objects of a program, by their identities. -/
abbrev ObjectGraph (V : Type) : Type := V → PyNode V

namespace PyNode

variable {V : Type}

/-- The object is a list or a dictionary. -/
def isContainer : PyNode V → Bool
  | .list _ => true
  | .dict _ => true
  | _ => false

/-- The object is a string. -/
def isStr : PyNode V → Bool
  | .str _ => true
  | _ => false

/-- The object is a dictionary. -/
def isDict : PyNode V → Bool
  | .dict _ => true
  | _ => false

/-- The items of a list and the values of a dictionary. -/
def children : PyNode V → List V
  | .list items => items
  | .dict entries => entries.map Prod.snd
  | _ => []

/-- The keys of a dictionary. -/
def keys : PyNode V → List V
  | .dict entries => entries.map Prod.fst
  | _ => []

/-- The object is a container, or a leaf with a JSON form. -/
def isJson : PyNode V → Bool
  | .float v => v.isSome
  | .object _ => false
  | _ => true

end PyNode

/-- One step from a container to an object in it. -/
inductive GraphSegment (V : Type)
  | index (i : ℕ)
  | key (k : V)

/-- What the validation can raise: a `JsonStateError` for the object at a path, or the `KeyError`
of removing an identity that is not in the set. -/
inductive ValidationError (V : Type)
  | state (path : List (GraphSegment V)) (expected : String) (value : V)
  | missing (value : V)

/-- The outcome of a call, with the set of active identities it leaves; `none` is a call that was
cut off. -/
abbrev Validated (V : Type) : Type := Option (Except (ValidationError V) Unit × Finset V)

namespace ObjectGraph

variable {V : Type}

/-! ## The code -/

section Code

variable [DecidableEq V]

/-- `_enter_container`. -/
def enterContainer (value : V) (path : List (GraphSegment V)) (active : Finset V) :
    Except (ValidationError V) (Finset V) :=
  if value ∈ active then .error (.state path "acyclic JSON value" value)
  else .ok (insert value active)

/-- The `finally` block of a container: `active.remove(id(value))`. -/
def leaveContainer (value : V) : Except (ValidationError V) Unit × Finset V →
    Except (ValidationError V) Unit × Finset V
  | (result, active) =>
    if value ∈ active then (result, active.erase value) else (.error (.missing value), active)

/-- The loop over the items of a list, from position `i`. -/
def validateItems (validate : V → List (GraphSegment V) → Finset V → Validated V)
    (path : List (GraphSegment V)) : ℕ → List V → Finset V → Validated V
  | _, [], active => some (.ok (), active)
  | i, item :: items, active =>
    match validate item (path ++ [.index i]) active with
    | some (.ok (), active) => validateItems validate path (i + 1) items active
    | other => other

/-- The loop over the entries of a dictionary. -/
def validateEntries (g : ObjectGraph V)
    (validate : V → List (GraphSegment V) → Finset V → Validated V)
    (path : List (GraphSegment V)) : List (V × V) → Finset V → Validated V
  | [], active => some (.ok (), active)
  | (key, item) :: entries, active =>
    if (g key).isStr then
      match validate item (path ++ [.key key]) active with
      | some (.ok (), active) => validateEntries g validate path entries active
      | other => other
    else some (.error (.state (path ++ [.key key]) "string key" key), active)

/-- `_validate_json_safe`, with at most `depth` calls on the stack. -/
def validateJsonSafe (g : ObjectGraph V) :
    ℕ → V → List (GraphSegment V) → Finset V → Validated V
  | 0, _, _, _ => none
  | depth + 1, value, path, active =>
    match g value with
    | .none => some (.ok (), active)
    | .str _ => some (.ok (), active)
    | .bool _ => some (.ok (), active)
    | .int _ => some (.ok (), active)
    | .float (some _) => some (.ok (), active)
    | .float none => some (.error (.state path "finite JSON number" value), active)
    | .list items =>
      match enterContainer value path active with
      | .error err => some (.error err, active)
      | .ok active =>
        (validateItems (validateJsonSafe g depth) path 0 items active).map (leaveContainer value)
    | .dict entries =>
      match enterContainer value path active with
      | .error err => some (.error err, active)
      | .ok active =>
        (validateEntries g (validateJsonSafe g depth) path entries active).map
          (leaveContainer value)
    | .object _ => some (.error (.state path "JSON value" value), active)

/-- `validate_json_object`, which starts with an empty set of active identities. -/
def validateJsonObject (g : ObjectGraph V) (depth : ℕ) (value : V) : Validated V :=
  if (g value).isDict then validateJsonSafe g depth value [] ∅
  else some (.error (.state [] "JSON object" value), ∅)

end Code

/-! ## What it accepts -/

/-- The walk goes from a container to its items or values. -/
def Child (g : ObjectGraph V) (v w : V) : Prop := w ∈ (g v).children

/-- An object that is JSON-safe by itself: a container with string keys, or a JSON leaf. -/
def JsonNode (g : ObjectGraph V) (v : V) : Prop :=
  (g v).isJson = true ∧ ∀ key ∈ (g v).keys, (g key).isStr = true

/-- Everything that can be reached is JSON-safe by itself, and nothing is reached from itself. -/
structure IsJsonSafe (g : ObjectGraph V) (v : V) : Prop where
  nodes : ∀ w, ReflTransGen g.Child v w → g.JsonNode w
  acyclic : AcyclicFrom g.Child v

/-- A JSON object. -/
structure IsJsonObject (g : ObjectGraph V) (v : V) : Prop extends IsJsonSafe g v where
  dict : (g v).isDict = true

variable {g : ObjectGraph V} {v : V}

/-- Only containers have children. -/
lemma Child.isContainer {w : V} (h : g.Child v w) : (g v).isContainer = true := by
  unfold Child PyNode.children at h
  unfold PyNode.isContainer
  cases hv : g v with
  | list => rfl
  | dict => rfl
  | _ =>
    rw [hv] at h
    exact absurd h List.not_mem_nil

/-- JSON safety, one step at a time. -/
lemma isJsonSafe_iff : g.IsJsonSafe v ↔ g.JsonNode v ∧
    ∀ w, g.Child v w → g.IsJsonSafe w ∧ ¬ ReflTransGen g.Child w v := by
  constructor
  · intro h
    refine ⟨h.nodes v .refl, fun w hw => ⟨⟨fun x hx => h.nodes x (.head hw hx), ?_⟩, ?_⟩⟩
    · exact (acyclicFrom_iff.mp h.acyclic).1 w hw
    · exact (acyclicFrom_iff.mp h.acyclic).2 w hw
  · rintro ⟨hnode, hnext⟩
    refine ⟨fun w hw => ?_, acyclicFrom_iff.mpr
      ⟨fun w hw => (hnext w hw).1.acyclic, fun w hw => (hnext w hw).2⟩⟩
    rcases hw.cases_head with rfl | ⟨x, hx, hxw⟩
    · exact hnode
    · exact (hnext x hx).1.nodes w hxw

/-- What `_validate_json_safe` accepts while a set of containers is active. -/
def Accepts (g : ObjectGraph V) (active : Set V) (v : V) : Prop :=
  g.IsJsonSafe v ∧ ClearOf g.Child active v

/-- A leaf is accepted if it has a JSON form. -/
lemma accepts_leaf {active : Set V} (hleaf : (g v).isContainer = false) (hv : v ∉ active) :
    g.Accepts active v ↔ (g v).isJson = true := by
  have hchild : ∀ w, ¬ g.Child v w := fun w hw => by
    have := hw.isContainer
    simp [hleaf] at this
  have hkeys : (g v).keys = [] := by
    unfold PyNode.keys
    unfold PyNode.isContainer at hleaf
    split
    · next h =>
      rw [h] at hleaf
      cases hleaf
    · rfl
  unfold Accepts
  rw [isJsonSafe_iff, clear_iff]
  simp [hchild, hkeys, hv, JsonNode]

/-- **A container is accepted** if it is not active, its keys are strings, and what it holds is
accepted while it is active. -/
lemma accepts_container {active : Set V} (hcontainer : (g v).isContainer = true) :
    g.Accepts active v ↔ v ∉ active ∧ (∀ key ∈ (g v).keys, (g key).isStr = true) ∧
      ∀ w ∈ (g v).children, g.Accepts (insert v active) w := by
  have hjson : (g v).isJson = true := by
    unfold PyNode.isContainer at hcontainer
    unfold PyNode.isJson
    split at hcontainer <;> simp_all
  unfold Accepts
  rw [isJsonSafe_iff, clear_iff, JsonNode]
  simp only [clear_insert_iff, Child]
  constructor
  · rintro ⟨⟨⟨-, hkeys⟩, hnext⟩, hv, hclear⟩
    exact ⟨hv, hkeys, fun w hw => ⟨(hnext w hw).1, hclear w hw, (hnext w hw).2⟩⟩
  · rintro ⟨hv, hkeys, hnext⟩
    exact ⟨⟨⟨hjson, hkeys⟩, fun w hw => ⟨(hnext w hw).1, (hnext w hw).2.2⟩⟩, hv,
      fun w hw => (hnext w hw).2.1⟩

/-! ## The walk -/

/-- A call that leaves the active set as it found it, and returns in one case. It does not raise the
`KeyError` of removing an identity. -/
def Settles (result : Validated V) (active : Finset V) (accepted : Prop) : Prop :=
  ∃ r, result = some (r, active) ∧ (∀ w, r ≠ .error (.missing w)) ∧ (r = .ok () ↔ accepted)

section Walk

variable [DecidableEq V]

omit [DecidableEq V] in
/-- The loop over a list. -/
lemma validateItems_settles {validate : V → List (GraphSegment V) → Finset V → Validated V}
    {active : Finset V} {accepted : V → Prop} (path : List (GraphSegment V)) (items : List V)
    (h : ∀ item ∈ items, ∀ path, Settles (validate item path active) active (accepted item))
    (i : ℕ) : Settles (validateItems validate path i items active) active
      (∀ item ∈ items, accepted item) := by
  induction items generalizing i with
  | nil => exact ⟨.ok (), rfl, by simp, by simp⟩
  | cons item items ih =>
    obtain ⟨r, hr, hno, hiff⟩ := h item List.mem_cons_self (path ++ [.index i])
    unfold validateItems
    rw [hr]
    cases r with
    | error err =>
      refine ⟨.error err, rfl, hno, fun h => (by cases h), fun hall => ?_⟩
      cases hiff.mpr (hall item List.mem_cons_self)
    | ok =>
      obtain ⟨r', hr', hno', hiff'⟩ := ih (fun x hx => h x (List.mem_cons_of_mem _ hx)) (i + 1)
      refine ⟨r', hr', hno', hiff'.trans ?_⟩
      simp [hiff.mp rfl]

omit [DecidableEq V] in
/-- The loop over a dictionary. -/
lemma validateEntries_settles {validate : V → List (GraphSegment V) → Finset V → Validated V}
    {active : Finset V} {accepted : V → Prop} (path : List (GraphSegment V))
    (entries : List (V × V))
    (h : ∀ item ∈ entries.map Prod.snd, ∀ path,
      Settles (validate item path active) active (accepted item)) :
    Settles (validateEntries g validate path entries active) active
      ((∀ key ∈ entries.map Prod.fst, (g key).isStr = true) ∧
        ∀ item ∈ entries.map Prod.snd, accepted item) := by
  induction entries with
  | nil => exact ⟨.ok (), rfl, by simp, by simp⟩
  | cons entry entries ih =>
    obtain ⟨key, item⟩ := entry
    unfold validateEntries
    split
    · next hkey =>
      obtain ⟨r, hr, hno, hiff⟩ := h item List.mem_cons_self (path ++ [.key key])
      rw [hr]
      cases r with
      | error err => exact ⟨.error err, rfl, hno, by simp [← hiff]⟩
      | ok =>
        obtain ⟨r', hr', hno', hiff'⟩ := ih fun x hx => h x (List.mem_cons_of_mem _ hx)
        refine ⟨r', hr', hno', hiff'.trans ?_⟩
        simp [hiff.mp rfl, hkey]
    · next hkey => exact ⟨_, rfl, by simp, by simp [hkey]⟩

/-- The body of a container, between entering and leaving it. -/
lemma Settles.container {active : Finset V} (hv : v ∉ active) {accepted : Prop}
    {result : Validated V} (h : Settles result (insert v active) accepted) :
    Settles (result.map (leaveContainer v)) active accepted := by
  obtain ⟨r, rfl, hno, hiff⟩ := h
  refine ⟨r, ?_, hno, hiff⟩
  simp [leaveContainer, Finset.erase_insert hv]

/-- **The walk ends**, leaves the active set as it found it, and accepts what is safe and clear of
the active containers, with as many calls on the stack as there are containers left and one.

**Proof sketch.** Induction on the depth: each container that is entered is one less that is
left. -/
lemma validateJsonSafe_settles [Fintype V] (depth : ℕ) (path : List (GraphSegment V))
    {active : Finset V} (hactive : ∀ a ∈ active, (g a).isContainer = true)
    (hdepth : activeᶜ.card < depth) :
    Settles (g.validateJsonSafe depth v path active) active (g.Accepts active v) := by
  induction depth generalizing v path active with
  | zero => exact absurd hdepth (Nat.not_lt_zero _)
  | succ depth ih =>
    have hleaf : ∀ {r}, (g v).isContainer = false →
        g.validateJsonSafe (depth + 1) v path active = some (r, active) →
        (∀ w, r ≠ .error (.missing w)) → (r = .ok () ↔ (g v).isJson = true) →
        Settles (g.validateJsonSafe (depth + 1) v path active) active (g.Accepts active v) := by
      intro r hleaf hr hno hiff
      have hv : v ∉ (active : Set V) := fun hmem => by
        have := hactive v hmem
        simp [hleaf] at this
      exact ⟨r, hr, hno, hiff.trans (accepts_leaf hleaf hv).symm⟩
    have hcontainer : ∀ (body : Finset V → Validated V) {keys children : List V},
        (g v).isContainer = true → (g v).keys = keys → (g v).children = children →
        (g.validateJsonSafe (depth + 1) v path active =
          match enterContainer v path active with
          | .error err => some (.error err, active)
          | .ok active => (body active).map (leaveContainer v)) →
        ((∀ item ∈ children, ∀ path, Settles (g.validateJsonSafe depth item path (insert v active))
          (insert v active) (g.Accepts (insert v active) item)) →
          Settles (body (insert v active)) (insert v active)
            ((∀ key ∈ keys, (g key).isStr = true) ∧
              ∀ item ∈ children, g.Accepts (insert v active) item)) →
        Settles (g.validateJsonSafe (depth + 1) v path active) active (g.Accepts active v) := by
      intro body keys children hv hkeys hchildren hunfold hbody
      rw [hunfold, accepts_container hv, hkeys, hchildren]
      unfold enterContainer
      by_cases hmem : v ∈ active
      · rw [if_pos hmem]
        exact ⟨_, rfl, by simp, by simp [hmem]⟩
      · rw [if_neg hmem]
        have hcard : (insert v active)ᶜ.card < depth := by
          have hsub : (insert v active)ᶜ ⊂ activeᶜ := by
            rw [Finset.compl_ssubset_compl]
            exact Finset.ssubset_insert hmem
          have := Finset.card_lt_card hsub
          omega
        have hinsert : ∀ a ∈ insert v active, (g a).isContainer = true := by
          intro a ha
          rcases Finset.mem_insert.mp ha with rfl | ha
          · exact hv
          · exact hactive a ha
        have hsettles := hbody fun item _ path => by
          rw [← Finset.coe_insert]
          exact ih path hinsert hcard
        obtain ⟨r, hr, hno, hiff⟩ := hsettles.container hmem
        exact ⟨r, hr, hno, hiff.trans (by simp [hmem])⟩
    have hunfold := validateJsonSafe.eq_2 g v path active depth
    cases hv : g v with
    | float value =>
      rw [hv] at hunfold
      cases value with
      | none =>
        exact hleaf (congrArg PyNode.isContainer hv) hunfold (by simp) (by simp [hv, PyNode.isJson])
      | some =>
        exact hleaf (congrArg PyNode.isContainer hv) hunfold (by simp) (by simp [hv, PyNode.isJson])
    | object =>
      rw [hv] at hunfold
      exact hleaf (congrArg PyNode.isContainer hv) hunfold (by simp) (by simp [hv, PyNode.isJson])
    | list items =>
      rw [hv] at hunfold
      have hkeys : (g v).keys = [] := congrArg PyNode.keys hv
      refine hcontainer (validateItems (g.validateJsonSafe depth) path 0 items)
        (congrArg PyNode.isContainer hv) hkeys (congrArg PyNode.children hv) hunfold
        fun hitems => ?_
      obtain ⟨r, hr, hno, hiff⟩ := validateItems_settles path items hitems 0
      exact ⟨r, hr, hno, hiff.trans ⟨fun h => ⟨fun key hkey => absurd hkey List.not_mem_nil, h⟩,
        fun h => h.2⟩⟩
    | dict entries =>
      rw [hv] at hunfold
      exact hcontainer (validateEntries g (g.validateJsonSafe depth) path entries)
        (congrArg PyNode.isContainer hv) (congrArg PyNode.keys hv)
        (congrArg PyNode.children hv) hunfold
        fun hitems => validateEntries_settles path entries hitems
    | _ =>
      rw [hv] at hunfold
      exact hleaf (congrArg PyNode.isContainer hv) hunfold (by simp)
        ⟨fun _ => congrArg PyNode.isJson hv, fun _ => rfl⟩

omit [DecidableEq V] in
/-- A deeper stack does not change the outcome of the loop over a list. -/
lemma validateItems_mono {f f' : V → List (GraphSegment V) → Finset V → Validated V}
    (hf : ∀ v path active x, f v path active = some x → f' v path active = some x)
    {path : List (GraphSegment V)} {items : List V} {i : ℕ} {active : Finset V}
    {x : Except (ValidationError V) Unit × Finset V}
    (h : validateItems f path i items active = some x) :
    validateItems f' path i items active = some x := by
  induction items generalizing i active with
  | nil => exact h
  | cons item items ih =>
    unfold validateItems at h ⊢
    cases hitem : f item (path ++ [.index i]) active with
    | none =>
      rw [hitem] at h
      cases h
    | some y =>
      rw [hitem] at h
      rw [hf _ _ _ _ hitem]
      obtain ⟨_ | _, active'⟩ := y
      · exact h
      · exact ih h

omit [DecidableEq V] in
/-- A deeper stack does not change the outcome of the loop over a dictionary. -/
lemma validateEntries_mono {f f' : V → List (GraphSegment V) → Finset V → Validated V}
    (hf : ∀ v path active x, f v path active = some x → f' v path active = some x)
    {path : List (GraphSegment V)} {entries : List (V × V)} {active : Finset V}
    {x : Except (ValidationError V) Unit × Finset V}
    (h : validateEntries g f path entries active = some x) :
    validateEntries g f' path entries active = some x := by
  induction entries generalizing active with
  | nil => exact h
  | cons entry entries ih =>
    obtain ⟨key, item⟩ := entry
    unfold validateEntries at h ⊢
    split at h
    · next hkey =>
      rw [if_pos hkey]
      cases hitem : f item (path ++ [.key key]) active with
      | none =>
        rw [hitem] at h
        cases h
      | some y =>
        rw [hitem] at h
        rw [hf _ _ _ _ hitem]
        obtain ⟨_ | _, active'⟩ := y
        · exact h
        · exact ih h
    · next hkey =>
      rw [if_neg hkey]
      exact h

/-- A deeper stack does not change the outcome. -/
lemma validateJsonSafe_mono {depth depth' : ℕ} (hle : depth ≤ depth')
    {path : List (GraphSegment V)} {active : Finset V}
    {x : Except (ValidationError V) Unit × Finset V}
    (h : g.validateJsonSafe depth v path active = some x) :
    g.validateJsonSafe depth' v path active = some x := by
  induction depth generalizing depth' v path active x with
  | zero => cases h
  | succ depth ih =>
    obtain ⟨depth', rfl⟩ : ∃ n, depth' = n + 1 := ⟨depth' - 1, by omega⟩
    have hf : ∀ v path active x, g.validateJsonSafe depth v path active = some x →
        g.validateJsonSafe depth' v path active = some x :=
      fun v path active x => ih (Nat.le_of_succ_le_succ hle)
    unfold validateJsonSafe at h ⊢
    cases hv : g v with
    | list items =>
      rw [hv] at h
      dsimp only at h ⊢
      cases henter : enterContainer v path active with
      | error =>
        rw [henter] at h
        exact h
      | ok active' =>
        rw [henter] at h
        obtain ⟨y, hy, rfl⟩ := Option.map_eq_some_iff.mp h
        exact Option.map_eq_some_iff.mpr ⟨y, validateItems_mono hf hy, rfl⟩
    | dict entries =>
      rw [hv] at h
      dsimp only at h ⊢
      cases henter : enterContainer v path active with
      | error =>
        rw [henter] at h
        exact h
      | ok active' =>
        rw [henter] at h
        obtain ⟨y, hy, rfl⟩ := Option.map_eq_some_iff.mp h
        exact Option.map_eq_some_iff.mpr ⟨y, validateEntries_mono hf hy, rfl⟩
    | float value =>
      rw [hv] at h
      cases value <;> exact h
    | _ =>
      rw [hv] at h
      exact h

/-- The validation of a JSON object ends. -/
lemma validateJsonObject_ends [Fintype V] (g : ObjectGraph V) (value : V) :
    ∃ r, (∀ depth, Fintype.card V < depth → g.validateJsonObject depth value = some (r, ∅)) ∧
      (∀ w, r ≠ .error (.missing w)) ∧ (r = .ok () ↔ g.IsJsonObject value) := by
  unfold validateJsonObject
  by_cases hdict : (g value).isDict = true
  · have hcompl : (∅ : Finset V)ᶜ.card < Fintype.card V + 1 := by
      rw [Finset.compl_empty, Finset.card_univ]
      exact Nat.lt_succ_self _
    obtain ⟨r, hr, hno, hiff⟩ := g.validateJsonSafe_settles (v := value) (Fintype.card V + 1) []
      (fun a ha => absurd ha (Finset.notMem_empty a)) hcompl
    refine ⟨r, fun depth hdepth => ?_, hno, hiff.trans ?_⟩
    · rw [if_pos hdict]
      exact validateJsonSafe_mono hdepth hr
    · rw [Finset.coe_empty]
      exact ⟨fun h => ⟨h.1, hdict⟩, fun h => ⟨h.toIsJsonSafe, fun _ _ => Set.notMem_empty _⟩⟩
  · refine ⟨.error (.state [] "JSON object" value), fun depth _ => if_neg hdict, by simp, ?_⟩
    exact ⟨fun h => (by cases h), fun h => absurd h.dict hdict⟩

/-- **The validation is exact**: with a stack deep enough for all objects, `validate_json_object`
returns or raises, leaves no active identity, and returns iff the value is a JSON object: a
dictionary from which no container is reached from itself, all keys are strings, and all leaves
have a JSON form. -/
theorem validate_json_object_exact [Fintype V] (g : ObjectGraph V) (value : V) :
    ∃ r, (∀ depth, Fintype.card V < depth → g.validateJsonObject depth value = some (r, ∅)) ∧
      (r = .ok () ↔ g.IsJsonObject value) := by
  obtain ⟨r, hends, -, hiff⟩ := g.validateJsonObject_ends value
  exact ⟨r, hends, hiff⟩

end Walk

/-! ## Trees -/

/-- A loop that fails at the first failure succeeds if it succeeds on every element. -/
lemma mapM_eq_some_iff {α β : Type} {f : α → Option β} {xs : List α} {ys : List β} :
    xs.mapM f = some ys ↔ List.Forall₂ (fun x y => f x = some y) xs ys := by
  induction xs generalizing ys with
  | nil => cases ys <;> simp
  | cons x xs ih =>
    have ih' : ∀ {ys}, List.mapM f xs = some ys ↔ List.Forall₂ (fun x y => f x = some y) xs ys := ih
    rw [List.mapM_cons]
    cases hx : f x with
    | none => cases ys <;> simp [hx]
    | some z =>
      cases hxs : List.mapM f xs with
      | none =>
        cases ys with
        | nil => simp
        | cons y ys => simp [← ih', hxs]
      | some zs =>
        cases ys with
        | nil => simp
        | cons y ys => simp [← ih', hxs, hx]

/-- The tree of an object without references. -/
def leafVal : PyNode V → PyVal
  | .none => .none
  | .str s => .str s
  | .bool b => .bool b
  | .int n => .int n
  | .float v => .float v
  | .object typeName => .object typeName
  | .list _ => .object "list"
  | .dict _ => .object "dict"

/-- The tree that an object unfolds to, down to a depth. -/
def unfold (g : ObjectGraph V) : ℕ → V → Option PyVal
  | 0, _ => none
  | depth + 1, v =>
    match g v with
    | .list items => (items.mapM (unfold g depth)).map .list
    | .dict entries =>
      ((entries.map Prod.snd).mapM (unfold g depth)).map fun values =>
        .dict ((entries.map fun entry => leafVal (g entry.1)).zip values)
    | node => some (leafVal node)

/-- A deeper unfolding is the same. -/
lemma unfold_mono {depth depth' : ℕ} (hle : depth ≤ depth') {v : V} {val : PyVal}
    (h : g.unfold depth v = some val) : g.unfold depth' v = some val := by
  induction depth generalizing depth' v val with
  | zero => cases h
  | succ depth ih =>
    obtain ⟨depth', rfl⟩ : ∃ n, depth' = n + 1 := ⟨depth' - 1, by omega⟩
    have hitems : ∀ {items : List V} {values : List PyVal},
        items.mapM (g.unfold depth) = some values →
        items.mapM (g.unfold depth') = some values := by
      intro items values hmap
      rw [mapM_eq_some_iff] at hmap ⊢
      exact hmap.imp fun _ _ hx => ih (Nat.le_of_succ_le_succ hle) hx
    unfold unfold at h ⊢
    cases hv : g v with
    | list items =>
      rw [hv] at h
      obtain ⟨values, hvalues, rfl⟩ := Option.map_eq_some_iff.mp h
      exact Option.map_eq_some_iff.mpr ⟨values, hitems hvalues, rfl⟩
    | dict entries =>
      rw [hv] at h
      obtain ⟨values, hvalues, rfl⟩ := Option.map_eq_some_iff.mp h
      exact Option.map_eq_some_iff.mpr ⟨values, hitems hvalues, rfl⟩
    | _ =>
      rw [hv] at h
      exact h

/-- The items of a list or the values of a dictionary, as far as they unfold. -/
lemma unfold_children {depth : ℕ} {v : V} {val : PyVal} (h : g.unfold (depth + 1) v = some val) :
    ∃ values, List.Forall₂ (fun w val => g.unfold depth w = some val) (g v).children values := by
  unfold unfold at h
  unfold PyNode.children
  cases hv : g v with
  | list items =>
    rw [hv] at h
    obtain ⟨values, hvalues, -⟩ := Option.map_eq_some_iff.mp h
    exact ⟨values, mapM_eq_some_iff.mp hvalues⟩
  | dict entries =>
    rw [hv] at h
    obtain ⟨values, hvalues, -⟩ := Option.map_eq_some_iff.mp h
    exact ⟨values, mapM_eq_some_iff.mp hvalues⟩
  | _ => exact ⟨[], .nil⟩

/-- The partner of an element. -/
lemma exists_of_forall₂ {α β : Type} {R : α → β → Prop} {xs : List α} {ys : List β}
    (h : List.Forall₂ R xs ys) {x : α} (hx : x ∈ xs) : ∃ y, R x y := by
  induction h with
  | nil => exact absurd hx List.not_mem_nil
  | cons hR _ ih =>
    rcases List.mem_cons.mp hx with rfl | hx
    · exact ⟨_, hR⟩
    · exact ih hx

/-- Walks through an object that unfolds end. -/
lemma acc_of_unfold {depth : ℕ} {v : V} {val : PyVal} (h : g.unfold depth v = some val) :
    Acc (flip g.Child) v := by
  induction depth generalizing v val with
  | zero => cases h
  | succ depth ih =>
    obtain ⟨values, hvalues⟩ := unfold_children h
    refine .intro v fun w hw => ?_
    obtain ⟨val, hval⟩ := exists_of_forall₂ hvalues hw
    exact ih hval

/-- Objects that unfold down to some depths unfold down to one. -/
lemma exists_mapM_unfold {items : List V}
    (h : ∀ item ∈ items, ∃ depth val, g.unfold depth item = some val) :
    ∃ depth values, items.mapM (g.unfold depth) = some values := by
  induction items with
  | nil => exact ⟨0, [], rfl⟩
  | cons item items ih =>
    obtain ⟨n, val, hval⟩ := h item List.mem_cons_self
    obtain ⟨m, values, hvalues⟩ := ih fun x hx => h x (List.mem_cons_of_mem _ hx)
    rw [mapM_eq_some_iff] at hvalues
    refine ⟨max n m, val :: values, mapM_eq_some_iff.mpr (.cons ?_ (hvalues.imp fun _ _ hx => ?_))⟩
    · exact unfold_mono (le_max_left n m) hval
    · exact unfold_mono (le_max_right n m) hx

/-- An object through which walks end unfolds. -/
lemma exists_unfold_of_acc {v : V} (h : Acc (flip g.Child) v) :
    ∃ depth val, g.unfold depth v = some val := by
  induction h with
  | intro v _ ih =>
    obtain ⟨depth, values, hvalues⟩ := exists_mapM_unfold fun w (hw : g.Child v w) => ih w hw
    unfold PyNode.children at hvalues
    refine ⟨depth + 1, ?_⟩
    unfold unfold
    cases hv : g v with
    | list items =>
      rw [hv] at hvalues
      exact ⟨_, Option.map_eq_some_iff.mpr ⟨values, hvalues, rfl⟩⟩
    | dict entries =>
      rw [hv] at hvalues
      exact ⟨_, Option.map_eq_some_iff.mpr ⟨values, hvalues, rfl⟩⟩
    | _ => exact ⟨_, rfl⟩

/-- **The objects that unfold to a tree** are those from which no cycle is reached. -/
theorem exists_unfold_iff [Finite V] {v : V} :
    (∃ depth val, g.unfold depth v = some val) ↔ AcyclicFrom g.Child v := by
  rw [acyclicFrom_iff_acc]
  exact ⟨fun ⟨_, _, h⟩ => acc_of_unfold h, exists_unfold_of_acc⟩

/-- What holds of everything that can be reached, one step at a time. -/
lemma reach_iff {p : V → Prop} {v : V} : (∀ w, ReflTransGen g.Child v w → p w) ↔
    p v ∧ ∀ x ∈ (g v).children, ∀ w, ReflTransGen g.Child x w → p w := by
  constructor
  · exact fun h => ⟨h v .refl, fun x hx w hw => h w (.head hx hw)⟩
  · rintro ⟨hnode, hnext⟩ w hw
    rcases hw.cases_head with rfl | ⟨x, hx, hxw⟩
    · exact hnode
    · exact hnext x hx w hxw

/-- The check of a list of trees. -/
lemma jsonErrorItems_forall₂ {items : List V} {values : List PyVal} {good : V → Prop}
    {root : String} {path : List PathSegment}
    (h : List.Forall₂ (fun w val => ∀ path, PyVal.jsonError root path val = Option.none ↔ good w)
      items values) (i : ℕ) :
    PyVal.jsonErrorItems root path i values = Option.none ↔ ∀ w ∈ items, good w := by
  induction h generalizing i with
  | nil => simp [PyVal.jsonErrorItems]
  | cons hx _ ih => simp [PyVal.jsonErrorItems, hx, ih]

/-- The check of the trees of a dictionary. -/
lemma jsonErrorEntries_forall₂ {entries : List (V × V)} {values : List PyVal} {good : V → Prop}
    {root : String} {path : List PathSegment}
    (h : List.Forall₂ (fun w val => ∀ path, PyVal.jsonError root path val = Option.none ↔ good w)
      (entries.map Prod.snd) values) :
    PyVal.jsonErrorEntries root path ((entries.map fun entry => leafVal (g entry.1)).zip values) =
      Option.none ↔ (∀ key ∈ entries.map Prod.fst, (g key).isStr = true) ∧
        ∀ w ∈ entries.map Prod.snd, good w := by
  induction entries generalizing values with
  | nil => simp [PyVal.jsonErrorEntries]
  | cons entry entries ih =>
    cases h with
    | @cons _ val _ values hx hrest =>
      have hrest := ih hrest
      cases hkey : g entry.1 with
      | str s => simp_all [PyVal.jsonErrorEntries, leafVal, PyNode.isStr, and_left_comm]
      | _ => simp [PyVal.jsonErrorEntries, leafVal, PyNode.isStr, hkey]

/-- The check of a tree is the check of what can be reached in the graph. -/
lemma unfold_jsonError_iff {depth : ℕ} {v : V} {val : PyVal} (h : g.unfold depth v = some val)
    (root : String) (path : List PathSegment) :
    PyVal.jsonError root path val = Option.none ↔
      ∀ w, ReflTransGen g.Child v w → g.JsonNode w := by
  induction depth generalizing v val path with
  | zero => cases h
  | succ depth ih =>
    rw [reach_iff, JsonNode]
    unfold unfold at h
    cases hv : g v with
    | list items =>
      rw [hv] at h
      obtain ⟨values, hvalues, rfl⟩ := Option.map_eq_some_iff.mp h
      rw [PyVal.jsonError, jsonErrorItems_forall₂
        ((mapM_eq_some_iff.mp hvalues).imp fun _ _ hx path => ih hx path)]
      simp [PyNode.isJson, PyNode.keys, PyNode.children]
    | dict entries =>
      rw [hv] at h
      obtain ⟨values, hvalues, rfl⟩ := Option.map_eq_some_iff.mp h
      rw [PyVal.jsonError, jsonErrorEntries_forall₂
        ((mapM_eq_some_iff.mp hvalues).imp fun _ _ hx path => ih hx path)]
      simp [PyNode.isJson, PyNode.keys, PyNode.children]
    | float value =>
      rw [hv] at h
      cases h
      cases value <;> simp [PyVal.jsonError, leafVal, PyNode.isJson, PyNode.keys, PyNode.children]
    | _ =>
      rw [hv] at h
      cases h
      simp [PyVal.jsonError, leafVal, PyNode.isJson, PyNode.keys, PyNode.children]

/-- **The check of `PyVal` is the check of the graph** that unfolds to it. -/
theorem unfold_isJsonObject_iff [Finite V] {depth : ℕ} {v : V} {val : PyVal}
    (h : g.unfold depth v = some val) : val.IsJsonObject ↔ g.IsJsonObject v := by
  have hacyclic : AcyclicFrom g.Child v := exists_unfold_iff.mp ⟨depth, val, h⟩
  have hnodes := unfold_jsonError_iff h "" []
  have hiff : g.IsJsonObject v ↔
      (∀ w, ReflTransGen g.Child v w → g.JsonNode w) ∧ (g v).isDict = true :=
    ⟨fun hv => ⟨hv.nodes, hv.dict⟩, fun hv => ⟨⟨hv.1, hacyclic⟩, hv.2⟩⟩
  rw [hiff, ← hnodes]
  cases depth with
  | zero => cases h
  | succ depth =>
    unfold unfold at h
    cases hv : g v with
    | list items =>
      rw [hv] at h
      obtain ⟨values, -, rfl⟩ := Option.map_eq_some_iff.mp h
      simp [PyVal.IsJsonObject, PyVal.objectError, PyNode.isDict]
    | dict entries =>
      rw [hv] at h
      obtain ⟨values, -, rfl⟩ := Option.map_eq_some_iff.mp h
      simp [PyVal.IsJsonObject, PyVal.objectError, PyNode.isDict]
    | _ =>
      rw [hv] at h
      cases h
      simp [PyVal.IsJsonObject, PyVal.objectError, PyNode.isDict, leafVal]

end ObjectGraph
