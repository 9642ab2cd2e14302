import Mathlib.Order.Filter.AtTopBot.Basic
import RpaCore.Report.Html
import RpaCore.Report.Serialized

set_option relaxedAutoImplicit false
set_option autoImplicit false

/-!
# Reports of arbitrary objects

`generate_report` for a transaction whose JSON-backed data are objects of any kind: not only trees.
The validation notices a container that contains itself; the snapshots that a report takes of
metadata do not. A recursion is cut off at a depth that is as large as need be.

## Main definitions

* `ObjectTransaction` — a transaction with objects for its JSON-backed data.
* `ObjectMethods` — the methods of the objects that the code calls.
* `ObjectTransaction.serialize`, `ObjectTransaction.generateReport` — the code.
* `Reported` — a report with a record that all renderers accept.
* `Reportable` — the condition for it.

## Main results

* `report_total_iff` — when a report is generated.
-/

open Filter Relation

/-! ## The code -/

/-- A step with an object for its arguments. -/
structure ObjectStep (V : Type) where
  step : RaisedStep
  arguments : V

/-- An artifact with an object for its metadata. -/
structure ObjectArtifact (V : Type) where
  artifact : Artifact
  metadata : V

/-- A transaction with objects for its JSON-backed data. Of `header`, the state, the metadata, the
steps and the artifacts are not looked at. -/
structure ObjectTransaction (V : Type) where
  header : Transaction
  state : V
  metadata : V
  steps : List (ObjectStep V)
  artifacts : List (ObjectArtifact V)

/-- The methods of the objects themselves: what `items()` yields for an object that is none of the
JSON types, or what asking for it, iterating over it or hashing a key raises; whether two objects
are the same key; and what `repr` raises, if anything. -/
structure ObjectMethods (V : Type) where
  items : V → Except PyError (List (V × V))
  sameKey : V → V → Bool
  repr : V → Option PyError

/-- Code that is cut off at a depth of the stack, or else returns or raises. -/
abbrev CutOff (α : Type) : Type := ExceptT PyError Option α

namespace ObjectMethods

variable {V : Type} (m : ObjectMethods V)

/-- The exception that the validation raises. Its text has the `repr` of the value that is refused,
which may raise as well. The path is left out. -/
def refuse : ValidationError V → PyError
  | .state _ expected value => (m.repr value).getD (.jsonState ⟨"", [], expected⟩)
  | .missing _ => .keyError ""

/-- An entry of a dictionary display: a key that is there keeps its place. -/
def setEntry (kvs : List (V × PyVal)) (kv : V × PyVal) : List (V × PyVal) :=
  if kvs.any fun old => m.sameKey old.1 kv.1 then
    kvs.map fun old => if m.sameKey old.1 kv.1 then (old.1, kv.2) else old
  else kvs ++ [kv]

end ObjectMethods

namespace ObjectGraph

variable {V : Type}

/-- `value.items()`. -/
def items (g : ObjectGraph V) (m : ObjectMethods V) (v : V) : Except PyError (List (V × V)) :=
  match g v with
  | .dict entries => .ok entries
  | .object _ => m.items v
  | _ => .error (.other "AttributeError" "")

/-- The dictionary display over `value.items()`, given the keys and the copied values. The keys of a
dictionary are distinct. -/
def display (g : ObjectGraph V) (m : ObjectMethods V) (v : V) (keys : List V)
    (values : List PyVal) : PyVal :=
  .dict ((if (g v).isDict then keys.zip values
    else (keys.zip values).foldl m.setEntry []).map fun kv => (leafVal (g kv.1), kv.2))

/-- `_snapshot_json_mapping`; lists and dictionaries are copied all the way down. -/
def snapshotMapping (g : ObjectGraph V) (m : ObjectMethods V) (depth : ℕ) (v : V) :
    CutOff PyVal := do
  let entries ← ExceptT.mk (some (g.items m v))
  let values ← ExceptT.mk (((entries.map Prod.snd).mapM (g.unfold depth)).map .ok)
  pure (g.display m v (entries.map Prod.fst) values)

/-- The validation of one object after the other. -/
def validateObjects [DecidableEq V] (g : ObjectGraph V) (m : ObjectMethods V) (depth : ℕ) :
    List V → CutOff Unit
  | [] => pure ()
  | v :: vs =>
    match g.validateJsonObject depth v with
    | none => .mk none
    | some (.error err, _) => throw (m.refuse err)
    | some (.ok (), _) => validateObjects g m depth vs

end ObjectGraph

namespace ObjectTransaction

variable {V : Type}

/-- The typed part of the transaction. -/
def typed (tx : ObjectTransaction V) : RaisedTransaction where
  tx := { tx.header with
    steps := tx.steps.map fun st => st.step.step
    artifacts := tx.artifacts.map ObjectArtifact.artifact }
  steps := tx.steps.map ObjectStep.step
  recorded := by simp

/-- The objects that `validate_durable_data` checks. -/
def durableObjects (tx : ObjectTransaction V) : List V :=
  [tx.state, tx.metadata] ++ tx.artifacts.map ObjectArtifact.metadata ++
    tx.steps.map ObjectStep.arguments

/-- The transaction with copies of its objects, `_copy_json_value`. -/
def copy (tx : ObjectTransaction V) (g : ObjectGraph V) (depth : ℕ) : Option Transaction := do
  let state ← g.unfold depth tx.state
  let metadata ← g.unfold depth tx.metadata
  let artifacts ← tx.artifacts.mapM fun a =>
    (g.unfold depth a.metadata).map fun metadata => { a.artifact with metadata := metadata }
  let steps ← tx.steps.mapM fun st =>
    (g.unfold depth st.arguments).map fun arguments => { st.step.step with arguments := arguments }
  pure { tx.header with
    state := state
    metadata := metadata
    artifacts := artifacts
    steps := steps }

/-- `serialize_transaction`: the objects are validated, and the record is that of their copies. -/
def serialize [DecidableEq V] (tx : ObjectTransaction V) (g : ObjectGraph V) (m : ObjectMethods V)
    (depth : ℕ) : CutOff PyVal := do
  g.validateObjects m depth tx.durableObjects
  let copied ← ExceptT.mk ((tx.copy g depth).map .ok)
  .mk (some copied.serialize)

/-- `ArtifactReport` of an artifact. -/
def artifactReport (g : ObjectGraph V) (m : ObjectMethods V) (depth : ℕ) (a : ObjectArtifact V) :
    CutOff Artifact := do
  let metadata ← g.snapshotMapping m depth a.metadata
  pure { a.artifact with metadata := metadata }

/-- `generate_report`. -/
def generateReport [DecidableEq V] (e : JsonEncoder) (g : ObjectGraph V) (m : ObjectMethods V)
    (depth : ℕ) (generatedAt : Datetime) (tx : ObjectTransaction V) :
    CutOff TransactionReport := do
  let steps ← ExceptT.mk (some (tx.typed.orderedSteps.mapM StepReport.ofStep))
  let artifacts ← tx.artifacts.mapM (artifactReport g m depth)
  let transactionRecord ← ExceptT.mk ((tx.serialize g m depth).run.map reportedRecord)
  let metadata ← g.snapshotMapping m depth tx.metadata
  .mk (some ((TransactionReport.ofTransaction tx.typed steps metadata artifacts transactionRecord
    generatedAt).finish e))

end ObjectTransaction

/-! ## Results of code that is cut off -/

namespace CutOff

variable {α β : Type} {x : CutOff α} {f : α → CutOff β}

/-- Code that returns, after code that returned. -/
lemma bind_eq_ok {b : β} : (x >>= f).run = some (.ok b) ↔
    ∃ a, x.run = some (.ok a) ∧ (f a).run = some (.ok b) := by
  rw [ExceptT.run_bind]
  cases hx : x.run with
  | none => simp
  | some r => cases r <;> simp

/-- Code that raises keeps what follows from running. -/
lemma bind_error {err : PyError} (hx : x.run = some (.error err)) :
    (x >>= f).run = some (.error err) := by
  rw [ExceptT.run_bind, hx]
  rfl

/-- A loop that returned: so did each of its rounds. -/
lemma mapM_eq_ok {f : α → CutOff β} {l : List α} {l' : List β} :
    (l.mapM f).run = some (.ok l') ↔ List.Forall₂ (fun a b => (f a).run = some (.ok b)) l l' := by
  induction l generalizing l' with
  | nil => cases l' <;> simp
  | cons a l ih =>
    rw [List.mapM_cons, bind_eq_ok]
    constructor
    · rintro ⟨b, hb, h⟩
      obtain ⟨rest, hrest, h⟩ := bind_eq_ok.mp h
      cases h
      exact .cons hb (ih.mp hrest)
    · intro h
      cases h with
      | @cons _ b _ rest hb hrest => exact ⟨b, hb, bind_eq_ok.mpr ⟨rest, ih.mpr hrest, rfl⟩⟩

end CutOff

/-- Rounds of a loop that end at some depth end at a common one. -/
lemma eventually_forall₂ {α β : Type} {P : ℕ → α → β → Prop} {R : α → β → Prop} {l : List α}
    (h : ∀ a ∈ l, ∃ b, (∀ᶠ depth in atTop, P depth a b) ∧ R a b) :
    ∃ l', (∀ᶠ depth in atTop, List.Forall₂ (P depth) l l') ∧ List.Forall₂ R l l' := by
  induction l with
  | nil => exact ⟨[], .of_forall fun _ => .nil, .nil⟩
  | cons a l ih =>
    obtain ⟨b, hb, hR⟩ := h a List.mem_cons_self
    obtain ⟨l', hl', hforall⟩ := ih fun a ha => h a (List.mem_cons_of_mem _ ha)
    exact ⟨b :: l', (hb.and hl').mono fun _ h => .cons h.1 h.2, .cons hR hforall⟩

/-- What holds of the results of a loop, said of its list. -/
lemma forall_of_forall₂ {α β : Type} {R : α → β → Prop} {p : β → Prop} {q : α → Prop} {l : List α}
    {l' : List β} (h : List.Forall₂ R l l') (hR : ∀ a b, R a b → (p b ↔ q a)) :
    (∀ b ∈ l', p b) ↔ ∀ a ∈ l, q a := by
  induction h with
  | nil => simp
  | cons hab _ ih => rw [List.forall_mem_cons, List.forall_mem_cons, ih, hR _ _ hab]

/-! ## Validation and copies -/

namespace ObjectGraph

variable {V : Type} {g : ObjectGraph V} {v : V}

/-- An acyclic object unfolds to one tree, at every large depth. -/
lemma eventually_unfold [Finite V] (h : AcyclicFrom g.Child v) :
    ∃ val, ∀ᶠ depth in atTop, g.unfold depth v = some val := by
  obtain ⟨depth, val, hval⟩ := exists_unfold_iff.mpr h
  exact ⟨val, eventually_atTop.mpr ⟨depth, fun _ hle => unfold_mono hle hval⟩⟩

/-- Every integer that can be reached can be written as a text. -/
def ShortInts (g : ObjectGraph V) (v : V) : Prop :=
  ∀ w, ReflTransGen g.Child v w → ∀ n, g w = .int n → shortInt n = true

/-- The values of a dictionary, zipped with keys. -/
lemma shortInts_zip {keys : List PyVal} {values : List PyVal} (h : keys.length = values.length) :
    (PyVal.dict (keys.zip values)).shortInts = true ↔ ∀ val ∈ values, val.shortInts = true := by
  rw [PyVal.shortInts_dict, ← List.forall_mem_map (f := Prod.snd)
    (P := fun val => PyVal.shortInts val = true), List.map_snd_zip (by omega)]

/-- The integers of a tree are those that can be reached. -/
lemma unfold_shortInts_iff {depth : ℕ} {val : PyVal} (h : g.unfold depth v = some val) :
    val.shortInts = true ↔ g.ShortInts v := by
  induction depth generalizing v val with
  | zero => cases h
  | succ depth ih =>
    unfold ShortInts
    rw [reach_iff]
    unfold unfold at h
    cases hv : g v with
    | list items =>
      rw [hv] at h
      obtain ⟨values, hvalues, rfl⟩ := Option.map_eq_some_iff.mp h
      rw [PyVal.shortInts_list, forall_of_forall₂ (mapM_eq_some_iff.mp hvalues)
        (q := fun w => g.ShortInts w) fun _ _ hx => ih hx]
      simp [PyNode.children, ShortInts]
    | dict entries =>
      rw [hv] at h
      obtain ⟨values, hvalues, rfl⟩ := Option.map_eq_some_iff.mp h
      have hforall := mapM_eq_some_iff.mp hvalues
      have hlength := hforall.length_eq
      rw [List.length_map] at hlength
      rw [shortInts_zip (by rw [List.length_map]; exact hlength),
        forall_of_forall₂ hforall (q := fun w => g.ShortInts w) fun _ _ hx => ih hx]
      simp only [PyNode.children, ShortInts, reduceCtorEq, false_implies, implies_true, true_and]
    | int n =>
      rw [hv] at h
      cases h
      simp [PyNode.children, leafVal, PyVal.shortInts]
    | _ =>
      rw [hv] at h
      cases h
      simp [PyNode.children, leafVal, PyVal.shortInts]

/-- A JSON object unfolds to one, with the same integers. -/
lemma IsJsonObject.eventually_unfold [Finite V] (h : g.IsJsonObject v) :
    ∃ val, (∀ᶠ depth in atTop, g.unfold depth v = some val) ∧ val.IsJsonObject ∧
      (val.shortInts = true ↔ g.ShortInts v) := by
  obtain ⟨val, hval⟩ := g.eventually_unfold h.acyclic
  obtain ⟨depth, hdepth⟩ := hval.exists
  exact ⟨val, hval, (unfold_isJsonObject_iff hdepth).mpr h, unfold_shortInts_iff hdepth⟩

/-- **The validation of objects ends**: it returns for JSON objects, and raises otherwise. -/
lemma eventually_validateObjects [Fintype V] [DecidableEq V] (m : ObjectMethods V) (vs : List V) :
    ∃ r, (∀ᶠ depth in atTop, (g.validateObjects m depth vs).run = some r) ∧
      (((∀ v ∈ vs, g.IsJsonObject v) ∧ r = .ok ()) ∨
        (¬ (∀ v ∈ vs, g.IsJsonObject v) ∧ ∃ err, r = .error err)) := by
  induction vs with
  | nil => exact ⟨.ok (), .of_forall fun _ => rfl, .inl ⟨by simp, rfl⟩⟩
  | cons v vs ih =>
    obtain ⟨r, hr, hno, hiff⟩ := g.validateJsonObject_ends v
    have hdeep : ∀ᶠ depth in atTop, g.validateJsonObject depth v = some (r, ∅) :=
      eventually_atTop.mpr ⟨_, fun depth hle => hr depth hle⟩
    cases r with
    | error err =>
      refine ⟨.error (m.refuse err), ?_, .inr ⟨fun h => ?_, _, rfl⟩⟩
      · filter_upwards [hdeep] with depth hdepth
        rw [validateObjects, hdepth]
        rfl
      · cases hiff.mpr (h v List.mem_cons_self)
    | ok =>
      obtain ⟨r', hr', hcases⟩ := ih
      refine ⟨r', ?_, ?_⟩
      · filter_upwards [hdeep, hr'] with depth hdepth hr'
        rw [validateObjects, hdepth]
        exact hr'
      · rw [List.forall_mem_cons]
        rcases hcases with ⟨hall, hok⟩ | ⟨hnot, herr⟩
        · exact .inl ⟨⟨hiff.mp rfl, hall⟩, hok⟩
        · exact .inr ⟨fun h => hnot h.2, herr⟩

/-- A snapshot can be taken: `items()` yields entries, and no cycle is reached from their values. -/
def CanSnapshot (g : ObjectGraph V) (m : ObjectMethods V) (v : V) : Prop :=
  ∃ entries, g.items m v = .ok entries ∧ ∀ entry ∈ entries, AcyclicFrom g.Child entry.2

/-- **A snapshot ends** if it can be taken. -/
lemma CanSnapshot.eventually [Finite V] {m : ObjectMethods V} (h : g.CanSnapshot m v) :
    ∃ val, (∃ kvs, val = .dict kvs) ∧
      ∀ᶠ depth in atTop, (g.snapshotMapping m depth v).run = some (.ok val) := by
  obtain ⟨entries, hentries, hacyclic⟩ := h
  obtain ⟨values, hvalues, -⟩ := eventually_forall₂
    (P := fun depth w val => g.unfold depth w = some val) (R := fun _ _ => True)
    (l := entries.map Prod.snd) (List.forall_mem_map.mpr fun entry hentry => by
      obtain ⟨val, hval⟩ := g.eventually_unfold (hacyclic entry hentry)
      exact ⟨val, hval, trivial⟩)
  refine ⟨g.display m v (entries.map Prod.fst) values, ⟨_, rfl⟩,
    hvalues.mono fun depth hdepth => ?_⟩
  refine CutOff.bind_eq_ok.mpr ⟨entries, congrArg some hentries, CutOff.bind_eq_ok.mpr
    ⟨values, ?_, rfl⟩⟩
  change ((entries.map Prod.snd).mapM (g.unfold depth)).map _ = _
  rw [mapM_eq_some_iff.mpr hdepth]
  rfl

/-- The parts of a snapshot that was taken. -/
lemma snapshotMapping_ok {m : ObjectMethods V} {depth : ℕ} {val : PyVal}
    (h : (g.snapshotMapping m depth v).run = some (.ok val)) :
    ∃ entries values, g.items m v = .ok entries ∧
      List.Forall₂ (fun w val => g.unfold depth w = some val) (entries.map Prod.snd) values ∧
      val = g.display m v (entries.map Prod.fst) values := by
  obtain ⟨entries, hentries, h⟩ := CutOff.bind_eq_ok.mp h
  obtain ⟨values, hvalues, h⟩ := CutOff.bind_eq_ok.mp h
  obtain ⟨values', hvalues, heq⟩ := Option.map_eq_some_iff.mp hvalues
  cases heq
  cases h
  exact ⟨entries, values, Option.some.inj hentries, mapM_eq_some_iff.mp hvalues, rfl⟩

/-- A snapshot that was taken can be taken. -/
lemma CanSnapshot.of_ok [Finite V] {m : ObjectMethods V} {depth : ℕ} {val : PyVal}
    (h : (g.snapshotMapping m depth v).run = some (.ok val)) : g.CanSnapshot m v := by
  obtain ⟨entries, values, hentries, hvalues, -⟩ := snapshotMapping_ok h
  refine ⟨entries, hentries, fun entry hentry => ?_⟩
  obtain ⟨val, hval⟩ := exists_of_forall₂ hvalues (List.mem_map_of_mem hentry)
  exact exists_unfold_iff.mp ⟨depth, val, hval⟩

/-- **The snapshot of a dictionary** is the tree that it unfolds to. -/
lemma unfold_of_snapshotMapping {m : ObjectMethods V} {depth : ℕ} {val : PyVal}
    (h : (g.snapshotMapping m depth v).run = some (.ok val)) (hdict : (g v).isDict = true) :
    g.unfold (depth + 1) v = some val := by
  obtain ⟨entries, values, hentries, hvalues, rfl⟩ := snapshotMapping_ok h
  unfold items at hentries
  unfold unfold
  cases hv : g v with
  | dict entries' =>
    rw [hv] at hentries
    cases hentries
    refine Option.map_eq_some_iff.mpr ⟨values, mapM_eq_some_iff.mpr hvalues, ?_⟩
    rw [display, if_pos hdict, show (entries.map fun entry => leafVal (g entry.1)) =
      (entries.map Prod.fst).map fun key => leafVal (g key) by rw [List.map_map]; rfl,
      List.zip_map_left]
    rfl
  | _ =>
    rw [hv] at hdict
    cases hdict

/-- The snapshot of a JSON object is JSON-safe, with the integers of the object. -/
lemma snapshotMapping_shortIff [Finite V] {m : ObjectMethods V} {depth : ℕ} {val : PyVal}
    (h : (g.snapshotMapping m depth v).run = some (.ok val)) (hv : g.IsJsonObject v) :
    val.ShortIff (g.ShortInts v) := by
  have hunfold := unfold_of_snapshotMapping h hv.dict
  exact ⟨((unfold_isJsonObject_iff hunfold).mpr hv).jsonSafe, unfold_shortInts_iff hunfold⟩

end ObjectGraph

namespace ObjectTransaction

variable {V : Type} {g : ObjectGraph V} {m : ObjectMethods V} {tx : ObjectTransaction V}
  {e : JsonEncoder} {generatedAt : Datetime}

/-- The JSON-backed objects are JSON objects. -/
def Durable (tx : ObjectTransaction V) (g : ObjectGraph V) : Prop :=
  ∀ v ∈ tx.durableObjects, g.IsJsonObject v

/-- The integers of the JSON-backed objects can be written. -/
def ShortObjects (tx : ObjectTransaction V) (g : ObjectGraph V) : Prop :=
  ∀ v ∈ tx.durableObjects, g.ShortInts v

/-- What holds of the JSON-backed objects, one field after the other. -/
lemma forall_durableObjects {p : V → Prop} : (∀ v ∈ tx.durableObjects, p v) ↔
    p tx.state ∧ p tx.metadata ∧ (∀ a ∈ tx.artifacts, p a.metadata) ∧
      ∀ st ∈ tx.steps, p st.arguments := by
  simp [durableObjects, or_imp, forall_and]

/-- **The copies of JSON objects** are durable, and carry the timestamps and numbers of the typed
part and the integers of the objects. -/
lemma Durable.eventually_copy [Finite V] (h : tx.Durable g) :
    ∃ copied : Transaction, (∀ᶠ depth in atTop, tx.copy g depth = some copied) ∧ copied.Durable ∧
      (copied.Dated ↔ tx.typed.tx.Dated) ∧ (copied.ShortNumbers ↔ tx.typed.tx.ShortNumbers) ∧
      (copied.ShortData ↔ tx.ShortObjects g) := by
  obtain ⟨hstate, hmetadata, hartifacts, harguments⟩ := forall_durableObjects.mp h
  obtain ⟨state, hstate, hstateSafe, hstateShort⟩ := hstate.eventually_unfold
  obtain ⟨metadata, hmetadata, hmetadataSafe, hmetadataShort⟩ := hmetadata.eventually_unfold
  obtain ⟨artifacts, hartifacts, hartifactsCopied⟩ := eventually_forall₂
    (P := fun depth (a : ObjectArtifact V) a' => ((g.unfold depth a.metadata).map fun metadata =>
      { a.artifact with metadata := metadata }) = some a')
    (R := fun a (a' : Artifact) => a'.metadata.IsJsonObject ∧
      (a'.metadata.shortInts = true ↔ g.ShortInts a.metadata) ∧
      a'.createdAt = a.artifact.createdAt) (l := tx.artifacts) fun a ha => by
      obtain ⟨val, hval, hsafe, hshort⟩ := (hartifacts a ha).eventually_unfold
      refine ⟨{ a.artifact with metadata := val }, hval.mono fun depth hdepth => ?_, hsafe, hshort,
        rfl⟩
      rw [hdepth]
      rfl
  obtain ⟨steps, hsteps, hstepsCopied⟩ := eventually_forall₂
    (P := fun depth (st : ObjectStep V) st' => ((g.unfold depth st.arguments).map fun arguments =>
      { st.step.step with arguments := arguments }) = some st')
    (R := fun st (st' : Step) => st'.arguments.IsJsonObject ∧
      (st'.arguments.shortInts = true ↔ g.ShortInts st.arguments) ∧
      st'.executionOrder = st.step.step.executionOrder ∧
      st'.exceptions = st.step.step.exceptions) (l := tx.steps) fun st hst => by
      obtain ⟨val, hval, hsafe, hshort⟩ := (harguments st hst).eventually_unfold
      refine ⟨{ st.step.step with arguments := val }, hval.mono fun depth hdepth => ?_, hsafe,
        hshort, rfl, rfl⟩
      rw [hdepth]
      rfl
  refine ⟨{ tx.header with
    state := state, metadata := metadata, artifacts := artifacts, steps := steps }, ?_, ?_, ?_, ?_,
    ?_⟩
  · filter_upwards [hstate, hmetadata, hartifacts, hsteps] with depth hstate hmetadata hartifacts
      hsteps
    rw [copy, hstate, hmetadata, ObjectGraph.mapM_eq_some_iff.mpr hartifacts,
      ObjectGraph.mapM_eq_some_iff.mpr hsteps]
    rfl
  · exact ⟨hstateSafe, hmetadataSafe,
      (forall_of_forall₂ hartifactsCopied (q := fun _ => True)
        fun _ _ hR => iff_of_true hR.1 trivial).mpr fun _ _ => trivial,
      (forall_of_forall₂ hstepsCopied (q := fun _ => True)
        fun _ _ hR => iff_of_true hR.1 trivial).mpr fun _ _ => trivial⟩
  · have hartifactsDated : (∀ a ∈ artifacts, a.createdAt.InRange) ↔
        ∀ a ∈ tx.artifacts, a.artifact.createdAt.InRange :=
      forall_of_forall₂ hartifactsCopied fun _ _ hR => by rw [hR.2.2]
    have hstepsDated : (∀ st ∈ steps, ∀ exc ∈ st.exceptions, exc.occurredAt.InRange) ↔
        ∀ st ∈ tx.steps, ∀ exc ∈ st.step.step.exceptions, exc.occurredAt.InRange :=
      forall_of_forall₂ hstepsCopied fun _ _ hR => by rw [hR.2.2.2]
    rw [Transaction.dated_iff, Transaction.dated_iff]
    simp only [typed, List.forall_mem_map]
    rw [hartifactsDated, hstepsDated]
  · have hnumbers : (∀ st ∈ steps, st.ShortNumbers) ↔ ∀ st ∈ tx.steps, st.step.step.ShortNumbers :=
      forall_of_forall₂ hstepsCopied fun _ _ hR => by
        rw [Step.shortNumbers_iff, Step.shortNumbers_iff, hR.2.2.1, hR.2.2.2]
    have htyped : (∀ st ∈ tx.typed.tx.steps, st.ShortNumbers) ↔
        ∀ st ∈ tx.steps, st.step.step.ShortNumbers := List.forall_mem_map
    rw [Transaction.shortNumbers_iff, Transaction.shortNumbers_iff, htyped, hnumbers]
    rfl
  · have hartifactsShort : (∀ a ∈ artifacts, a.metadata.shortInts = true) ↔
        ∀ a ∈ tx.artifacts, g.ShortInts a.metadata :=
      forall_of_forall₂ hartifactsCopied fun _ _ hR => hR.2.1
    have hstepsShort : (∀ st ∈ steps, st.arguments.shortInts = true) ↔
        ∀ st ∈ tx.steps, g.ShortInts st.arguments :=
      forall_of_forall₂ hstepsCopied fun _ _ hR => hR.2.1
    rw [ShortObjects, forall_durableObjects, ← hstateShort, ← hmetadataShort, ← hartifactsShort,
      ← hstepsShort, Transaction.shortData_iff]

/-- **Serialization ends**: it succeeds for JSON objects if the timestamps have UTC values, and
raises `outOfRange` if they do not. For other objects it raises what the validation raises. -/
lemma eventually_serialize [Fintype V] [DecidableEq V] (m : ObjectMethods V)
    (tx : ObjectTransaction V) :
    ∃ r, (∀ᶠ depth in atTop, (tx.serialize g m depth).run = some r) ∧
      ((tx.Durable g ∧ Answers tx.typed.tx.Dated
          (PyVal.ShortIff (tx.typed.tx.ShortNumbers ∧ tx.ShortObjects g)) r) ∨
        (¬ tx.Durable g ∧ ∃ err, r = .error err ∧ ∀ᶠ depth in atTop,
          (g.validateObjects m depth tx.durableObjects).run = some (.error err))) := by
  obtain ⟨r, hr, hcases⟩ := g.eventually_validateObjects m tx.durableObjects
  rcases hcases with ⟨hdurable, rfl⟩ | ⟨hnot, err, rfl⟩
  · have hdurable : tx.Durable g := hdurable
    obtain ⟨copied, hcopied, hcopiedDurable, hdated, hnumbers, hdata⟩ := hdurable.eventually_copy
    have hanswers := Transaction.answers_serialize hcopiedDurable
    rw [hnumbers, hdata] at hanswers
    refine ⟨copied.serialize, ?_, .inl ⟨hdurable, hanswers.of_iff hdated⟩⟩
    filter_upwards [hr, hcopied] with depth hr hcopied
    rw [serialize, ExceptT.run_bind, hr, hcopied]
    rfl
  · refine ⟨.error err, ?_, .inr ⟨hnot, err, rfl, hr⟩⟩
    filter_upwards [hr] with depth hr
    exact CutOff.bind_error hr

/-! ## Generating a report -/

/-- A report is generated, and its record is a JSON object that all renderers accept. It is complete
exactly when the transaction is serialized. -/
def Reported (e : JsonEncoder) (asUri : String → String) (g : ObjectGraph V) [DecidableEq V]
    (m : ObjectMethods V) (generatedAt : Datetime) (tx : ObjectTransaction V) : Prop :=
  ∃ report record view, (∀ᶠ depth in atTop,
      (tx.generateReport e g m depth generatedAt).run = some (.ok report)) ∧
    report.record = some record ∧ record.IsJsonObject ∧ renderJson e report = .ok record ∧
    recordPayload e report = .ok view ∧ (∃ text, renderText e report = .ok text) ∧
    (∃ html, renderHtml e asUri report = .ok html) ∧
    (view.complete = true ↔ ∃ v, ∀ᶠ depth in atTop, (tx.serialize g m depth).run = some (.ok v))

/-- What a report that is total asks for. No handler is around the copies of the exceptions and of
the metadata; around the serialization and the encoding there is one for `TypeError` and
`ValueError`. -/
structure Reportable (e : JsonEncoder) (g : ObjectGraph V) [DecidableEq V] (m : ObjectMethods V)
    (tx : ObjectTransaction V) : Prop where
  copied : ∀ st ∈ tx.steps, ∀ raised ∈ st.step.exceptions, ∃ message, raised.copied = .ok message
  metadata : g.CanSnapshot m tx.metadata
  artifacts : ∀ a ∈ tx.artifacts, g.CanSnapshot m a.metadata
  validated : ∀ err, (∀ᶠ depth in atTop, (g.validateObjects m depth tx.durableObjects).run =
    some (.error err)) → err.isTypeOrValueError = true
  dated : tx.Durable g → tx.typed.tx.Dated
  retryCount : shortInt tx.header.retryCount = true
  short : tx.Durable g → tx.typed.tx.ShortNumbers ∧ tx.ShortObjects g
  caught : ∀ metadata artifacts, (∀ᶠ depth in atTop,
      (g.snapshotMapping m depth tx.metadata).run = some (.ok metadata) ∧
      (tx.artifacts.mapM (artifactReport g m depth)).run = some (.ok artifacts)) →
    Caught e tx.typed.tx metadata artifacts

/-- What a report is made of, at a depth of the stack. -/
structure Parts (g : ObjectGraph V) [DecidableEq V] (m : ObjectMethods V) (depth : ℕ)
    (tx : ObjectTransaction V) (steps : List StepReport) (metadata : PyVal)
    (artifacts : List Artifact) (transactionRecord : Option PyVal) : Prop where
  steps : tx.typed.orderedSteps.mapM StepReport.ofStep = .ok steps
  artifacts : (tx.artifacts.mapM (artifactReport g m depth)).run = some (.ok artifacts)
  transactionRecord : (tx.serialize g m depth).run.map reportedRecord =
    some (.ok transactionRecord)
  metadata : (g.snapshotMapping m depth tx.metadata).run = some (.ok metadata)

section Parts

variable [DecidableEq V] {depth : ℕ} {report : TransactionReport} {steps : List StepReport}
  {metadata : PyVal} {artifacts : List Artifact} {transactionRecord : Option PyVal}

/-- **A report is generated** from its parts, if it has a record. -/
lemma generateReport_eq_ok :
    (tx.generateReport e g m depth generatedAt).run = some (.ok report) ↔
      ∃ steps metadata artifacts transactionRecord record,
        Parts g m depth tx steps metadata artifacts transactionRecord ∧
        buildReportRecord e (.ofTransaction tx.typed steps metadata artifacts transactionRecord
          generatedAt) = .ok record ∧
        report = { TransactionReport.ofTransaction tx.typed steps metadata artifacts
          transactionRecord generatedAt with record := some record } := by
  constructor
  · intro h
    obtain ⟨steps, hsteps, h⟩ := CutOff.bind_eq_ok.mp h
    obtain ⟨artifacts, hartifacts, h⟩ := CutOff.bind_eq_ok.mp h
    obtain ⟨transactionRecord, hrecord, h⟩ := CutOff.bind_eq_ok.mp h
    obtain ⟨metadata, hmetadata, h⟩ := CutOff.bind_eq_ok.mp h
    have hfinish := Option.some.inj h
    unfold TransactionReport.finish at hfinish
    split at hfinish
    · next record hbuild =>
      cases hfinish
      exact ⟨steps, metadata, artifacts, transactionRecord, record,
        ⟨Option.some.inj hsteps, hartifacts, hrecord, hmetadata⟩, hbuild, rfl⟩
    · cases hfinish
  · rintro ⟨steps, metadata, artifacts, transactionRecord, record, hparts, hbuild, rfl⟩
    refine CutOff.bind_eq_ok.mpr ⟨steps, congrArg some hparts.steps, CutOff.bind_eq_ok.mpr
      ⟨artifacts, hparts.artifacts, CutOff.bind_eq_ok.mpr ⟨transactionRecord,
        hparts.transactionRecord, CutOff.bind_eq_ok.mpr ⟨metadata, hparts.metadata, ?_⟩⟩⟩⟩
    change some _ = _
    rw [TransactionReport.finish, hbuild]

/-- The metadata of a report are dictionaries. -/
lemma Parts.mapped (h : Parts g m depth tx steps metadata artifacts transactionRecord) :
    (TransactionReport.ofTransaction tx.typed steps metadata artifacts transactionRecord
      generatedAt).Mapped := by
  have hdict : ∀ {v : V} {val : PyVal}, (g.snapshotMapping m depth v).run = some (.ok val) →
      ∃ kvs, val = .dict kvs := by
    intro v val hval
    obtain ⟨entries, values, -, -, rfl⟩ := ObjectGraph.snapshotMapping_ok hval
    exact ⟨_, rfl⟩
  refine ⟨hdict h.metadata, fun a ha => ?_⟩
  obtain ⟨a₀, hcopy⟩ := ObjectGraph.exists_of_forall₂ (CutOff.mapM_eq_ok.mp h.artifacts).flip ha
  obtain ⟨metadata, hmetadata, hcopy⟩ := CutOff.bind_eq_ok.mp hcopy
  cases hcopy
  exact hdict hmetadata

/-- The snapshots of the metadata that were taken can be taken. -/
lemma Parts.canSnapshot [Finite V]
    (h : Parts g m depth tx steps metadata artifacts transactionRecord) :
    g.CanSnapshot m tx.metadata ∧ ∀ a ∈ tx.artifacts, g.CanSnapshot m a.metadata := by
  refine ⟨.of_ok h.metadata, fun a ha => ?_⟩
  obtain ⟨a', hcopy⟩ := ObjectGraph.exists_of_forall₂ (CutOff.mapM_eq_ok.mp h.artifacts) ha
  obtain ⟨metadata, hmetadata, -⟩ := CutOff.bind_eq_ok.mp hcopy
  exact .of_ok hmetadata

/-- The transaction record of a report, once the serialization has ended. -/
lemma Parts.recorded {r : Except PyError PyVal}
    (h : Parts g m depth tx steps metadata artifacts transactionRecord)
    (hr : (tx.serialize g m depth).run = some r) : reportedRecord r = .ok transactionRecord := by
  have hrecord := h.transactionRecord
  rw [hr] at hrecord
  exact Option.some.inj hrecord

/-- What is read as complete of a record: it shows the transaction record. -/
lemma complete_iff {report : TransactionReport} {view : RecordView}
    (hshows : (recordedPayload e report).Shows e view) : view.complete = true ↔
      e.refusal (Payload.ofReport report).json = none ∧ report.transactionRecord.isSome = true := by
  rw [hshows.complete, e.refusal_eq_none]
  unfold recordedPayload
  cases e.encode (Payload.ofReport report).json with
  | ok record => simp [Payload.ofReport]
  | error err => simp [Payload.fallback]

/-- **The record of durable data can be written** iff the numbers can. -/
lemma Parts.refusal_iff [Finite V]
    (h : Parts g m depth tx steps metadata artifacts transactionRecord) (hdurable : tx.Durable g)
    {v : PyVal} (hv : v.ShortIff (tx.typed.tx.ShortNumbers ∧ tx.ShortObjects g)) :
    e.refusal (Payload.ofReport (.ofTransaction tx.typed steps metadata artifacts (some v)
      generatedAt)).json = none ↔ tx.typed.tx.ShortNumbers ∧ tx.ShortObjects g := by
  have hsnapshot : ∀ {w : V} {val : PyVal}, (g.snapshotMapping m depth w).run = some (.ok val) →
      w ∈ tx.durableObjects → tx.ShortObjects g → e.refusal val = none := by
    intro w val hval hw hshort
    obtain ⟨hsafe, hiff⟩ := ObjectGraph.snapshotMapping_shortIff hval (hdurable w hw)
    rw [e.refusal_jsonSafe _ hsafe, JsonEncoder.digitsRefusal_eq_none, hiff]
    exact hshort w hw
  have hartifact : ∀ (a : ObjectArtifact V) (a' : Artifact), a ∈ tx.artifacts →
      (artifactReport g m depth a).run = some (.ok a') → tx.ShortObjects g →
      e.refusal a'.metadata = none := by
    intro a a' ha hcopy hshort
    obtain ⟨val, hval, hcopy⟩ := CutOff.bind_eq_ok.mp hcopy
    cases hcopy
    exact hsnapshot hval (by simp [durableObjects, List.mem_map_of_mem ha]) hshort
  have hrecord : e.refusal v = none ↔ tx.typed.tx.ShortNumbers ∧ tx.ShortObjects g := by
    rw [e.refusal_jsonSafe _ hv.1, JsonEncoder.digitsRefusal_eq_none, hv.2]
  rw [written_iff h.steps]
  constructor
  · rintro ⟨-, -, -, hv⟩
    exact hrecord.mp hv
  · intro hshort
    refine ⟨hsnapshot h.metadata (by simp [durableObjects]) hshort.2, fun a' ha' => ?_, hshort.1,
      hrecord.mpr hshort⟩
    have hcopies := (List.forall₂_and_left _ _).mpr
      ⟨fun a ha => ha, CutOff.mapM_eq_ok.mp h.artifacts⟩
    obtain ⟨a, ha, hcopy⟩ := ObjectGraph.exists_of_forall₂ hcopies.flip ha'
    exact hartifact a a' ha hcopy hshort.2

/-- **A record is formed** from the parts iff nothing but a `TypeError` or a `ValueError` is raised
for the metadata and the retry count can be written. -/
lemma Parts.exists_record_iff
    (h : Parts g m depth tx steps metadata artifacts transactionRecord)
    (hrecord : (transactionRecord.getD .none).JsonSafe) :
    (∃ record, buildReportRecord e (.ofTransaction tx.typed steps metadata artifacts
      transactionRecord generatedAt) = .ok record) ↔
      Caught e tx.typed.tx metadata artifacts ∧ shortInt tx.header.retryCount = true := by
  rw [exists_buildReportRecord_iff, caught_iff h.steps hrecord]
  rfl

/-- **The record of a report** can be read, and shows what the report is made of. -/
lemma Parts.readable (h : Parts g m depth tx steps metadata artifacts transactionRecord)
    {record : PyVal} (hbuild : buildReportRecord e (.ofTransaction tx.typed steps metadata artifacts
      transactionRecord generatedAt) = .ok record) :
    ∃ view, record.IsJsonObject ∧
      recordPayload e { TransactionReport.ofTransaction tx.typed steps metadata artifacts
        transactionRecord generatedAt with record := some record } = .ok view ∧
      (recordedPayload e (.ofTransaction tx.typed steps metadata artifacts transactionRecord
        generatedAt)).Shows e view := by
  obtain ⟨view, hobject, hloads, hview, hshows⟩ := buildReportRecord_readable h.mapped hbuild
  exact ⟨view, hobject, Except.bind_eq_ok.mpr ⟨record, rfl, Except.bind_eq_ok.mpr
    ⟨record, hloads, hview⟩⟩, hshows⟩

/-- The exceptions of the steps of a report were copied. -/
lemma Parts.copied (h : Parts g m depth tx steps metadata artifacts transactionRecord) :
    ∀ st ∈ tx.steps, ∀ raised ∈ st.step.exceptions, ∃ message, raised.copied = .ok message := by
  intro st hst raised hraised
  have hmem : st.step ∈ tx.typed.orderedSteps :=
    (List.mem_insertionSort _).mpr (List.mem_map_of_mem hst)
  obtain ⟨report, hreport, -⟩ := mem_of_mapM_ok h.steps hmem
  obtain ⟨exceptions, hexceptions, -⟩ := Except.bind_eq_ok.mp hreport
  obtain ⟨shown, hshown, -⟩ := mem_of_mapM_ok hexceptions hraised
  obtain ⟨message, hmessage, -⟩ := Except.bind_eq_ok.mp hshown
  exact ⟨message, hmessage⟩

end Parts

/-- **The steps, the metadata and the artifacts** of a report are the same at every large depth. -/
lemma Reportable.eventually_parts [DecidableEq V] [Finite V] (h : tx.Reportable e g m) :
    ∃ steps metadata artifacts, tx.typed.orderedSteps.mapM StepReport.ofStep = .ok steps ∧
      ∀ᶠ depth in atTop, (g.snapshotMapping m depth tx.metadata).run = some (.ok metadata) ∧
        (tx.artifacts.mapM (artifactReport g m depth)).run = some (.ok artifacts) := by
  obtain ⟨steps, hsteps⟩ : ∃ steps, tx.typed.orderedSteps.mapM StepReport.ofStep = .ok steps := by
    refine exists_mapM_ok fun st hst => ?_
    obtain ⟨st', hst', rfl⟩ := List.mem_map.mp ((List.mem_insertionSort _).mp hst)
    obtain ⟨exceptions, hexceptions⟩ : ∃ exceptions,
        st'.step.exceptions.mapM RaisedException.copy = .ok exceptions :=
      exists_mapM_ok fun raised hraised => by
        obtain ⟨message, hmessage⟩ := h.copied st' hst' raised hraised
        exact ⟨_, Except.bind_eq_ok.mpr ⟨message, hmessage, rfl⟩⟩
    exact ⟨_, Except.bind_eq_ok.mpr ⟨exceptions, hexceptions, rfl⟩⟩
  obtain ⟨metadata, -, hmetadata⟩ := h.metadata.eventually
  obtain ⟨artifacts, hartifacts, -⟩ := eventually_forall₂
    (P := fun depth a a' => (artifactReport g m depth a).run = some (.ok a'))
    (R := fun _ _ => True) (l := tx.artifacts) fun a ha => by
      obtain ⟨val, -, hval⟩ := (h.artifacts a ha).eventually
      exact ⟨{ a.artifact with metadata := val }, hval.mono fun depth hdepth =>
        CutOff.bind_eq_ok.mpr ⟨val, hdepth, rfl⟩, trivial⟩
  exact ⟨steps, metadata, artifacts, hsteps, (hmetadata.and hartifacts).mono fun depth h =>
    ⟨h.1, CutOff.mapM_eq_ok.mpr h.2⟩⟩

/-- **The transaction record of a report** is there iff the transaction was serialized. -/
lemma transactionRecord_cases [Fintype V] [DecidableEq V] {r : Except PyError PyVal}
    {transactionRecord : Option PyVal}
    (hr : ∀ᶠ depth in atTop, (tx.serialize g m depth).run = some r)
    (hrecord : reportedRecord r = .ok transactionRecord) :
    (tx.Durable g ∧ tx.typed.tx.Dated ∧ ∃ v, r = .ok v ∧ transactionRecord = some v ∧
        v.ShortIff (tx.typed.tx.ShortNumbers ∧ tx.ShortObjects g)) ∨
      (¬ tx.Durable g ∧ (∃ err, r = .error err) ∧ transactionRecord = none) := by
  obtain ⟨r', hr', hcases⟩ := @eventually_serialize V g _ _ m tx
  obtain ⟨depth, hdepth, hdepth'⟩ := (hr.and hr').exists
  obtain rfl := Option.some.inj (hdepth.symm.trans hdepth')
  rcases hcases with ⟨hdurable, ⟨hdated, v, rfl, hv⟩ | ⟨-, rfl⟩⟩ | ⟨hnot, err, rfl, -⟩
  · cases hrecord
    exact .inl ⟨hdurable, hdated, v, rfl, rfl, hv⟩
  · cases (reportedRecord_error.mp hrecord).1
  · exact .inr ⟨hnot, ⟨err, rfl⟩, (reportedRecord_error.mp hrecord).2⟩

/-- **A report that is generated** meets the condition. -/
lemma Reported.conditions [Fintype V] [DecidableEq V] {asUri : String → String}
    (h : Reported e asUri g m generatedAt tx) : tx.Reportable e g m := by
  obtain ⟨report, record, view, hreport, -, -, -, hview, -, -, hcomplete⟩ := h
  obtain ⟨r, hr, -⟩ := @eventually_serialize V g _ _ m tx
  -- what holds at every large depth is seen at one where the report is made
  have hparts : ∀ {P : ℕ → Prop}, (∀ᶠ depth in atTop, P depth) →
      ∃ depth steps metadata artifacts transactionRecord record, P depth ∧
        Parts g m depth tx steps metadata artifacts transactionRecord ∧
        reportedRecord r = .ok transactionRecord ∧
        buildReportRecord e (.ofTransaction tx.typed steps metadata artifacts transactionRecord
          generatedAt) = .ok record ∧
        report = { TransactionReport.ofTransaction tx.typed steps metadata artifacts
          transactionRecord generatedAt with record := some record } := by
    intro P hP
    obtain ⟨depth, hdepth, hP, hr⟩ := (hreport.and (hP.and hr)).exists
    obtain ⟨steps, metadata, artifacts, transactionRecord, record, hp, hbuild, hreport⟩ :=
      generateReport_eq_ok.mp hdepth
    exact ⟨depth, steps, metadata, artifacts, transactionRecord, record, hP, hp, hp.recorded hr,
      hbuild, hreport⟩
  have hcaught : ∀ {depth : ℕ} {steps : List StepReport} {metadata : PyVal}
      {artifacts : List Artifact} {transactionRecord : Option PyVal} {record : PyVal},
      Parts g m depth tx steps metadata artifacts transactionRecord →
      reportedRecord r = .ok transactionRecord →
      buildReportRecord e (.ofTransaction tx.typed steps metadata artifacts transactionRecord
        generatedAt) = .ok record →
      Caught e tx.typed.tx metadata artifacts ∧ shortInt tx.header.retryCount = true := by
    intro depth steps metadata artifacts transactionRecord record hp hrecord hbuild
    refine (hp.exists_record_iff ?_).mp ⟨record, hbuild⟩
    rcases transactionRecord_cases hr hrecord with ⟨-, -, v, -, rfl, hv⟩ | ⟨-, -, rfl⟩
    · exact hv.1
    · trivial
  obtain ⟨_, steps, metadata, artifacts, transactionRecord, record, -, hp, hrecord, hbuild, rfl⟩ :=
    hparts (.of_forall fun _ => trivial)
  refine ⟨hp.copied, hp.canSnapshot.1, hp.canSnapshot.2, fun err herr => ?_, fun hdurable => ?_,
    (hcaught hp hrecord hbuild).2, fun hdurable => ?_, fun metadata' artifacts' hcopies => ?_⟩
  · obtain ⟨depth, hr, herr⟩ := (hr.and herr).exists
    cases hr.symm.trans (CutOff.bind_error herr)
    exact (reportedRecord_error.mp hrecord).1
  · rcases transactionRecord_cases hr hrecord with ⟨-, hdated, -⟩ | ⟨hnot, -⟩
    · exact hdated
    · exact absurd hdurable hnot
  · rcases transactionRecord_cases hr hrecord with ⟨-, -, v, rfl, rfl, hv⟩ | ⟨hnot, -⟩
    · obtain ⟨view', -, hview', hshows⟩ := hp.readable hbuild
      cases hview.symm.trans hview'
      exact (hp.refusal_iff hdurable hv).mp ((complete_iff hshows).mp (hcomplete.mpr ⟨v, hr⟩)).1
    · exact absurd hdurable hnot
  · obtain ⟨depth, _, _, _, _, _, hcopies, hp, hrecord, hbuild, -⟩ := hparts hcopies
    cases hp.metadata.symm.trans hcopies.1
    cases hp.artifacts.symm.trans hcopies.2
    exact (hcaught hp hrecord hbuild).1

/-- **Report generation is total** exactly when the exceptions can be copied, snapshots of the
metadata can be taken, what the validation, the timestamps and the record raise is caught, and the
integers are short enough to be written as texts.

**Proof sketch.** The snapshots and the serialization end at some depth of the stack, or at none.
The serialization raises what the validation raises, or the `OverflowError` of a timestamp, which is
not caught. From there on everything is a tree: the record falls back to what can be written, if the
retry count can be, and it is read back as it was written. -/
theorem report_total_iff [Fintype V] [DecidableEq V] {asUri : String → String} :
    Reported e asUri g m generatedAt tx ↔ tx.Reportable e g m := by
  refine ⟨Reported.conditions, fun h => ?_⟩
  obtain ⟨steps, metadata, artifacts, hsteps, hcopies⟩ := h.eventually_parts
  obtain ⟨r, hr, hcases⟩ := @eventually_serialize V g _ _ m tx
  obtain ⟨transactionRecord, hrecord⟩ : ∃ transactionRecord,
      reportedRecord r = .ok transactionRecord := by
    rcases hcases with ⟨hdurable, ⟨-, v, rfl, -⟩ | ⟨hbad, -⟩⟩ | ⟨-, err, rfl, herr⟩
    · exact ⟨some v, rfl⟩
    · exact absurd (h.dated hdurable) hbad
    · exact ⟨none, if_pos (h.validated err herr)⟩
  have hparts : ∀ᶠ depth in atTop,
      Parts g m depth tx steps metadata artifacts transactionRecord := by
    filter_upwards [hcopies, hr] with depth hcopies hr
    refine ⟨hsteps, hcopies.2, ?_, hcopies.1⟩
    rw [hr]
    exact congrArg some hrecord
  obtain ⟨depth, hp⟩ := hparts.exists
  have hrecorded := transactionRecord_cases hr hrecord
  obtain ⟨record, hbuild⟩ : ∃ record, buildReportRecord e (.ofTransaction tx.typed steps metadata
      artifacts transactionRecord generatedAt) = .ok record := by
    refine (hp.exists_record_iff ?_).mpr ⟨h.caught metadata artifacts hcopies, h.retryCount⟩
    rcases hrecorded with ⟨-, -, v, -, rfl, hv⟩ | ⟨-, -, rfl⟩
    · exact hv.1
    · trivial
  obtain ⟨view, hobject, hview, hshows⟩ := hp.readable hbuild
  refine ⟨_, record, view, hparts.mono fun depth hp => generateReport_eq_ok.mpr
    ⟨steps, metadata, artifacts, transactionRecord, record, hp, hbuild, rfl⟩, rfl, hobject, rfl,
    hview, Except.exists_bind_ok hview ⟨_, rfl⟩, Except.exists_bind_ok hview ⟨_, rfl⟩, ?_⟩
  rw [complete_iff hshows]
  rcases hrecorded with ⟨hdurable, -, v, rfl, rfl, hv⟩ | ⟨-, ⟨err, rfl⟩, rfl⟩
  · exact iff_of_true ⟨(hp.refusal_iff hdurable hv).mpr (h.short hdurable), rfl⟩ ⟨v, hr⟩
  · refine iff_of_false (fun h => by cases h.2) ?_
    rintro ⟨v, hv⟩
    obtain ⟨depth, hr, hv⟩ := (hr.and hv).exists
    cases hr.symm.trans hv

end ObjectTransaction

/-- A dictionary that contains itself, its key, and an empty dictionary. -/
def cyclicGraph : ObjectGraph (Fin 3)
  | 0 => .dict [(1, 0)]
  | 1 => .str "self"
  | 2 => .dict []

/-- A transaction with metadata that contain themselves. -/
def cyclicSample : ObjectTransaction (Fin 3) where
  header := Transaction.create "invoices" "t" default [] default
  state := 2
  metadata := 0
  steps := []
  artifacts := []

/-- Objects without `items` that are told apart. -/
def plainMethods : ObjectMethods (Fin 3) where
  items _ := .error (.other "AttributeError" "")
  sameKey v w := v = w
  repr _ := none

/-- **Metadata that contain themselves** have no report. -/
theorem cyclic_metadata_unreported : ¬ ObjectTransaction.Reported plainEncoder id cyclicGraph
    plainMethods default cyclicSample := by
  intro h
  obtain ⟨entries, hentries, hacyclic⟩ := h.conditions.metadata
  cases hentries
  exact hacyclic (1, 0) List.mem_cons_self 0 .refl
    (.single (by simp [ObjectGraph.Child, cyclicGraph, PyNode.children]))
