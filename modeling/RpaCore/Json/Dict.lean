import Mathlib.Data.List.Nodup
import Mathlib.Data.List.Sort
import RpaCore.Json.Compact

set_option relaxedAutoImplicit false
set_option autoImplicit false

/-!
# Dictionaries with text keys

The entries of a dictionary in the order in which their keys were first set, no key twice, and the
JSON text of a value with its keys sorted.

## Main definitions

* `Dict`, `Dict.set`, `Dict.update`, `Dict.get?` — dictionaries.
* `Json.dumps` — the text of a value with sorted keys.

## Main results

* `Dict.get?_update` — the later of two entries counts.
* `Json.field_sortKeys` — sorting the keys changes no field.
-/

/-- A dictionary: its entries, with no key twice. -/
structure Dict (α : Type) where
  entries : List (String × α)
  nodup : (entries.map Prod.fst).Nodup

namespace Dict

variable {α β : Type} {k : String} {v : α}

/-- The value of a key in a list of entries without a key twice. -/
lemma lookup_eq_some_iff {kvs : List (String × α)} (h : (kvs.map Prod.fst).Nodup) :
    kvs.lookup k = some v ↔ (k, v) ∈ kvs := by
  induction kvs with
  | nil => simp
  | cons kv kvs ih =>
    rw [List.map_cons, List.nodup_cons] at h
    rw [List.lookup_cons, List.mem_cons]
    by_cases hk : k = kv.1
    · subst hk
      have hmem : (kv.1, v) ∉ kvs := fun hmem =>
        h.1 (List.mem_map.mpr ⟨_, hmem, rfl⟩)
      simp [hmem, Prod.ext_iff, eq_comm]
    · rw [beq_eq_false_iff_ne.mpr hk]
      have hne : (k, v) ≠ kv := fun heq => hk (congrArg Prod.fst heq)
      simpa [hne] using ih h.2

/-- `dict.get(key)`. -/
def get? (d : Dict α) (k : String) : Option α := d.entries.lookup k

/-- A key has the value of its entry. -/
lemma get?_eq_some_iff {d : Dict α} : d.get? k = some v ↔ (k, v) ∈ d.entries :=
  lookup_eq_some_iff d.nodup

/-- A key without an entry has no value. -/
lemma get?_eq_none_iff {d : Dict α} : d.get? k = none ↔ k ∉ d.entries.map Prod.fst := by
  rw [Option.eq_none_iff_forall_ne_some]
  constructor
  · intro h hmem
    obtain ⟨kv, hkv, rfl⟩ := List.mem_map.mp hmem
    exact h kv.2 (get?_eq_some_iff.mpr hkv)
  · intro h v hv
    exact h (List.mem_map.mpr ⟨_, get?_eq_some_iff.mp hv, rfl⟩)

/-- A key with an entry has a value. -/
lemma exists_get? {d : Dict α} (h : k ∈ d.entries.map Prod.fst) : ∃ v, d.get? k = some v := by
  obtain ⟨kv, hkv, rfl⟩ := List.mem_map.mp h
  exact ⟨kv.2, get?_eq_some_iff.mpr hkv⟩

/-- The empty dictionary. -/
def empty : Dict α := ⟨[], List.nodup_nil⟩

/-- `dict[key] = value`: a key that is there keeps its place. -/
def set (d : Dict α) (k : String) (v : α) : Dict α where
  entries :=
    if k ∈ d.entries.map Prod.fst then d.entries.map fun kv => if kv.1 = k then (k, v) else kv
    else d.entries ++ [(k, v)]
  nodup := by
    split
    · have hkeys : (d.entries.map fun kv => if kv.1 = k then (k, v) else kv).map Prod.fst =
        d.entries.map Prod.fst := by
        rw [List.map_map]
        refine List.map_congr_left fun kv _ => ?_
        rw [Function.comp_apply]
        split
        · next h => exact h.symm
        · rfl
      rw [hkeys]
      exact d.nodup
    · next h =>
      rw [List.map_append, List.nodup_append]
      refine ⟨d.nodup, by simp, ?_⟩
      intro k' hk' k'' hk'' heq
      rw [List.map_singleton, List.mem_singleton] at hk''
      have hk : k' = k := heq.trans hk''
      exact h (hk ▸ hk')

/-- The entries after an assignment. -/
lemma mem_set {d : Dict α} {k' : String} {v' : α} : (k', v') ∈ (d.set k v).entries ↔
    (k' = k ∧ v' = v) ∨ (k' ≠ k ∧ (k', v') ∈ d.entries) := by
  unfold set
  dsimp only
  split
  · next h =>
    rw [List.mem_map]
    constructor
    · rintro ⟨kv, hkv, heq⟩
      split at heq
      · cases heq
        exact .inl ⟨rfl, rfl⟩
      · next hne =>
        subst heq
        exact .inr ⟨hne, hkv⟩
    · rintro (⟨rfl, rfl⟩ | ⟨hne, hmem⟩)
      · obtain ⟨kv, hkv, hkey⟩ := List.mem_map.mp h
        exact ⟨kv, hkv, if_pos hkey⟩
      · exact ⟨(k', v'), hmem, if_neg hne⟩
  · next h =>
    rw [List.mem_append, List.mem_singleton]
    constructor
    · rintro (hmem | heq)
      · refine .inr ⟨?_, hmem⟩
        rintro rfl
        exact h (List.mem_map_of_mem hmem)
      · cases heq
        exact .inl ⟨rfl, rfl⟩
    · rintro (⟨rfl, rfl⟩ | ⟨-, hmem⟩)
      · exact .inr rfl
      · exact .inl hmem

/-- **Reading after an assignment.** -/
theorem get?_set {d : Dict α} {k' : String} :
    (d.set k v).get? k' = if k' = k then some v else d.get? k' := by
  refine Option.ext fun v' => ?_
  rw [get?_eq_some_iff, mem_set]
  split
  · next h => simp [h, eq_comm]
  · next h => simp [h, get?_eq_some_iff]

/-- The keys after an assignment: a new key is the last one. -/
lemma keys_set {d : Dict α} : (d.set k v).entries.map Prod.fst =
    if k ∈ d.entries.map Prod.fst then d.entries.map Prod.fst
    else d.entries.map Prod.fst ++ [k] := by
  unfold set
  dsimp only
  split
  · rw [List.map_map]
    refine List.map_congr_left fun kv _ => ?_
    rw [Function.comp_apply]
    split
    · next h => exact h.symm
    · rfl
  · rw [List.map_append, List.map_singleton]

/-- `dict.update(…)` with entries. -/
def setAll (d : Dict α) (kvs : List (String × α)) : Dict α :=
  kvs.foldl (fun d kv => d.set kv.1 kv.2) d

/-- `{key: value, …}`: the later of two entries with one key counts. -/
def ofEntries (kvs : List (String × α)) : Dict α := empty.setAll kvs

/-- `dict.update(other)`. -/
def update (d other : Dict α) : Dict α := d.setAll other.entries

/-- Entries that are set do not touch another key. -/
lemma get?_setAll_of_notMem {d : Dict α} {kvs : List (String × α)}
    (h : k ∉ kvs.map Prod.fst) : (d.setAll kvs).get? k = d.get? k := by
  unfold setAll
  induction kvs generalizing d with
  | nil => rfl
  | cons kv kvs ih =>
    rw [List.map_cons, List.mem_cons, not_or] at h
    rw [List.foldl_cons, ih h.2, get?_set, if_neg h.1]

/-- Entries that are set without a key twice are all there. -/
lemma get?_setAll_of_mem {d : Dict α} {kvs : List (String × α)}
    (hnodup : (kvs.map Prod.fst).Nodup) (h : (k, v) ∈ kvs) : (d.setAll kvs).get? k = some v := by
  unfold setAll
  induction kvs generalizing d with
  | nil => exact absurd h List.not_mem_nil
  | cons kv kvs ih =>
    rw [List.map_cons, List.nodup_cons] at hnodup
    rw [List.foldl_cons]
    rcases List.mem_cons.mp h with rfl | h
    · have hrest := @get?_setAll_of_notMem _ k (d.set k v) kvs hnodup.1
      unfold setAll at hrest
      rw [hrest, get?_set, if_pos rfl]
    · exact ih hnodup.2 h

/-- **Reading after an update**: the later of two entries counts. -/
theorem get?_update {d other : Dict α} :
    (d.update other).get? k = (other.get? k).or (d.get? k) := by
  cases h : other.get? k with
  | some v =>
    rw [Option.some_or]
    exact get?_setAll_of_mem other.nodup (get?_eq_some_iff.mp h)
  | none =>
    rw [Option.none_or]
    refine get?_setAll_of_notMem fun hmem => ?_
    obtain ⟨kv, hkv, rfl⟩ := List.mem_map.mp hmem
    have hsome : other.get? kv.1 = some kv.2 := get?_eq_some_iff.mpr hkv
    exact Option.some_ne_none _ (hsome.symm.trans h)

/-- The entries whose key is kept. -/
def filterKeys (d : Dict α) (p : String → Bool) : Dict α where
  entries := d.entries.filter fun kv => p kv.1
  nodup := d.nodup.sublist (List.filter_sublist.map Prod.fst)

/-- Reading an entry whose key is not kept. -/
lemma get?_filterKeys_of_not {d : Dict α} {p : String → Bool} (h : p k = false) :
    (d.filterKeys p).get? k = none := by
  rw [get?_eq_none_iff]
  rintro hmem
  obtain ⟨kv, hkv, rfl⟩ := List.mem_map.mp hmem
  exact Bool.false_ne_true (h.symm.trans (List.mem_filter.mp hkv).2)

/-- Reading an entry whose key is kept. -/
lemma get?_filterKeys {d : Dict α} {p : String → Bool} (h : p k = true) :
    (d.filterKeys p).get? k = d.get? k := by
  refine Option.ext fun v => ?_
  rw [get?_eq_some_iff, get?_eq_some_iff]
  simp [filterKeys, h]

/-- The values, each replaced. -/
def mapValues (d : Dict α) (f : α → β) : Dict β where
  entries := d.entries.map fun kv => (kv.1, f kv.2)
  nodup := by
    rw [List.map_map]
    exact d.nodup

end Dict

namespace Json

/-! ## Sorted keys -/

/-- `json.dumps` with `sort_keys=True`, up to the text: the keys in every object are sorted. -/
def sortEntries (kvs : List (String × Json)) : List (String × Json) :=
  kvs.insertionSort fun a b => a.1 ≤ b.1

mutual
/-- The value with the keys of its objects sorted. -/
def sortKeys : Json → Json
  | null => null
  | bool b => bool b
  | number n => number n
  | str s => str s
  | arr xs => arr (sortItems xs)
  | obj kvs => obj (sortEntries (sortValues kvs))

/-- The items of a list with the keys of their objects sorted. -/
def sortItems : List Json → List Json
  | [] => []
  | x :: xs => sortKeys x :: sortItems xs

/-- The values of an object with the keys of their objects sorted. -/
def sortValues : List (String × Json) → List (String × Json)
  | [] => []
  | (k, v) :: kvs => (k, sortKeys v) :: sortValues kvs
end

/-- `json.dumps(v, sort_keys=True, separators=(",", ":"))`. -/
def dumps (v : Json) : String := String.ofList v.sortKeys.compact

mutual
/-- No number has more digits than the limit. -/
def fits (limit : ℕ) : Json → Bool
  | null => true
  | bool _ => true
  | number n => (n.chars.filter Char.isDigit).length ≤ limit
  | str _ => true
  | arr xs => itemsFit limit xs
  | obj kvs => valuesFit limit kvs

/-- No number of the items has more digits than the limit. -/
def itemsFit (limit : ℕ) : List Json → Bool
  | [] => true
  | x :: xs => fits limit x && itemsFit limit xs

/-- No number of the values has more digits than the limit. -/
def valuesFit (limit : ℕ) : List (String × Json) → Bool
  | [] => true
  | (_, v) :: kvs => fits limit v && valuesFit limit kvs
end

/-- A field of an object. -/
def field (k : String) : Json → Option Json
  | obj kvs => kvs.lookup k
  | _ => none

/-- A text that `dumps` wrote is read as the value with sorted keys. -/
theorem decode_dumps (v : Json) : decode v.dumps.toList = some v.sortKeys := by
  rw [dumps, String.toList_ofList, decode_compact]

/-- The values that are sorted. -/
lemma sortValues_eq (kvs : List (String × Json)) :
    sortValues kvs = kvs.map fun kv => (kv.1, sortKeys kv.2) := by
  induction kvs with
  | nil => rfl
  | cons kv kvs ih => rw [sortValues, ih, List.map_cons]

/-- **Sorting the keys changes no field** of an object without a key twice. -/
theorem field_sortKeys {kvs : List (String × Json)} (h : (kvs.map Prod.fst).Nodup) (k : String) :
    (obj kvs).sortKeys.field k = ((obj kvs).field k).map sortKeys := by
  have hkeys : ((sortValues kvs).map Prod.fst).Nodup := by
    rw [sortValues_eq, List.map_map]
    exact h
  have hsorted : ((sortEntries (sortValues kvs)).map Prod.fst).Nodup :=
    ((List.perm_insertionSort _ _).map Prod.fst).nodup_iff.mpr hkeys
  refine Option.ext fun v => ?_
  rw [sortKeys, field, field, Dict.lookup_eq_some_iff hsorted, sortEntries,
    (List.perm_insertionSort _ _).mem_iff, sortValues_eq, List.mem_map, Option.map_eq_some_iff]
  constructor
  · rintro ⟨kv, hkv, heq⟩
    cases heq
    exact ⟨kv.2, (Dict.lookup_eq_some_iff h).mpr hkv, rfl⟩
  · rintro ⟨w, hw, rfl⟩
    exact ⟨(k, w), (Dict.lookup_eq_some_iff h).mp hw, rfl⟩

end Json
