import RpaCore.Checkpoint.Audit
import RpaCore.Model.Serialization
import RpaCore.Persistence.RoundTrip

set_option relaxedAutoImplicit false
set_option autoImplicit false

/-!
# Saving and loading one transaction

A transaction that evolves is saved again and again, between the saves of others; what is loaded
afterwards is the last state that was saved.

## Main definitions

* `savedStates` — the states of one transaction that a series of saves has saved.

## Main results

* `Transaction.serialize_stored` — the stored form has the same record.
* `load_last_saved` — loading after any series of saves.
-/

/-! ## Records of stored transactions -/

/-- Two results of a serialization are the same record: JSON objects do not order their keys. -/
def SameRecord (a b : Except PyError PyVal) : Prop :=
  a.map PyVal.canonical = b.map PyVal.canonical

/-- The record of a timestamp is that of its stored value. -/
lemma Datetime.record_normal (d : Datetime) : d.normal.record = d.record := by
  have hutc : d.normal.astimezoneUtc = d.astimezoneUtc := by
    unfold Datetime.normal
    split
    · simp [astimezoneUtc, ofInstant, instant]
    · rfl
  rw [Datetime.record, hutc, Datetime.record]

/-- The record of an optional timestamp is that of its stored value. -/
lemma timestampRecord_normal (d : Option Datetime) :
    timestampRecord (d.map Datetime.normal) = timestampRecord d := by
  cases d with
  | none => rfl
  | some d => exact d.record_normal

namespace Transaction

variable {tx : Transaction}

/-- Sorting twice is sorting once. -/
lemma orderedSteps_stored : tx.stored.orderedSteps = tx.orderedSteps :=
  (List.pairwise_insertionSort _ _).insertionSort_eq

/-- The durable data of a stored transaction is valid. -/
lemma validateDurableData_stored (h : tx.Valid) : tx.stored.validateDurableData = .ok () := by
  have hall : ∀ entry ∈ tx.stored.durableValues, entry.2.objectError entry.1 = none := by
    intro entry hentry
    rw [PyVal.objectError_eq_none_iff]
    simp only [durableValues, List.mem_append, List.mem_cons, List.not_mem_nil, or_false,
      List.mem_map] at hentry
    rcases hentry with ((rfl | rfl) | ⟨⟨a, i⟩, ha, rfl⟩) | ⟨st, hst, rfl⟩
    · exact h.state
    · exact h.metadata.canonical
    · have hmem := List.mem_of_getElem? (List.mk_mem_zipIdx_iff_getElem?.mp ha)
      obtain ⟨a₀, ha₀, rfl⟩ := List.mem_map.mp hmem
      exact (h.artifacts ha₀).canonical
    · exact h.arguments ((List.mem_insertionSort _).mp hst)
  unfold validateDurableData
  rw [List.findSome?_eq_none_iff.mpr fun entry hentry => hall entry hentry]

/-- The record of an artifact is that of its stored form. -/
lemma record_artifact (a : Artifact) :
    SameRecord ({ a with metadata := a.metadata.canonical } : Artifact).record a.record := by
  unfold SameRecord Artifact.record
  cases hcreated : a.createdAt.record with
  | error err => rfl
  | ok createdAt =>
    simp [bind, Except.bind, pure, Except.pure, Except.map, PyVal.canonical,
      PyVal.canonicalEntries, PyVal.canonical_canonical]

/-- **The record of a stored transaction** is that of the transaction.

**Proof sketch.** Storing changes the representation of timestamps, the order of the steps and the
order of keys; the record has every timestamp in UTC and the steps in execution order. -/
theorem serialize_stored (h : tx.Valid) : SameRecord tx.stored.serialize tx.serialize := by
  have hartifacts := mapM_map_eq (f := Artifact.record) (g := Artifact.record)
    (h := fun a => { a with metadata := a.metadata.canonical }) (c := PyVal.canonical)
    (l := tx.artifacts) fun a _ => record_artifact a
  unfold SameRecord serialize
  rw [validateDurableData_stored h, h.parts.2, orderedSteps_stored,
    show tx.stored.createdAt = tx.createdAt.map Datetime.normal from rfl,
    show tx.stored.startedAt = tx.startedAt.map Datetime.normal from rfl,
    show tx.stored.finishedAt = tx.finishedAt.map Datetime.normal from rfl,
    timestampRecord_normal, timestampRecord_normal, timestampRecord_normal,
    show tx.stored.history = tx.history from rfl]
  change Except.map (List.map PyVal.canonical) (tx.stored.artifacts.mapM Artifact.record) = _
    at hartifacts
  generalize tx.stored.artifacts.mapM Artifact.record = artifacts at hartifacts ⊢
  generalize tx.artifacts.mapM Artifact.record = artifacts' at hartifacts ⊢
  cases timestampRecord tx.createdAt with
  | error err => rfl
  | ok createdAt =>
  cases timestampRecord tx.startedAt with
  | error err => rfl
  | ok startedAt =>
  cases timestampRecord tx.finishedAt with
  | error err => rfl
  | ok finishedAt =>
  cases tx.orderedSteps.mapM Step.record with
  | error err => rfl
  | ok steps =>
  cases tx.history.mapM HistoryEntry.record with
  | error err => rfl
  | ok history =>
  cases artifacts with
  | error err =>
    cases artifacts' with
    | error err' => exact congrArg Except.error (Except.error.inj hartifacts)
    | ok xs => cases hartifacts
  | ok xs =>
    cases artifacts' with
    | error err' => cases hartifacts
    | ok ys =>
      have hxs : xs.map PyVal.canonical = ys.map PyVal.canonical := Except.ok.inj hartifacts
      have hmetadata : tx.stored.metadata.canonical = tx.metadata.canonical :=
        PyVal.canonical_canonical tx.metadata
      simp only [bind, Except.bind, pure, Except.pure, Except.map, PyVal.canonical,
        PyVal.canonicalEntries, PyVal.canonicalItems_eq, hxs, hmetadata]
      rfl

end Transaction

/-! ## Saves of one transaction -/

/-- The states of a transaction that a series of saves has saved, in order. -/
def savedStates (id : String) (calls : List (SaveCall × Except PyError Unit)) : List Transaction :=
  (calls.filter (SavedAs id)).map fun entry => entry.1.tx

namespace TransactionDb

/-- The last saved state of a transaction, if there is one, is stored. -/
def LastSaved (id : String) (db : TransactionDb) : Option Transaction → Prop
  | none => db.header id = none
  | some tx => tx.id = id ∧ tx.Valid ∧ db.Stores tx

variable {db db' : TransactionDb} {id : String} {tx : Transaction} {last : Option Transaction}
  {expectedRevision : Option ℤ} {queueItemId claimToken : String} {revision : ℤ}

/-- A write of another transaction keeps what was saved last. -/
lemma LastSaved.of_ne (h : db.LastSaved id last)
    (hw : Written tx expectedRevision queueItemId claimToken db revision db') (hne : id ≠ tx.id) :
    db'.LastSaved id last := by
  cases last with
  | none => exact (hw.header_of_ne hne).trans h
  | some tx₀ =>
    obtain ⟨hid, hvalid, hstores⟩ := h
    exact ⟨hid, hvalid, hw.stores_of_ne (by rw [hid]; exact hne) hstores⟩

end TransactionDb

variable {db db' : TransactionDb} {calls : List (SaveCall × Except PyError Unit)} {id : String}
  {last : Option Transaction}

/-- A series of saves of an evolving transaction leaves its last saved state stored.

**Proof sketch.** Induction on the series: a failing save changes nothing, a save of another
transaction keeps the stored rows, and a save of this one is a write over nothing or over the state
before. -/
lemma SaveRun.lastSaved (h : SaveRun db calls db') (hdb : db.Consistent)
    (hlast : db.LastSaved id last)
    (hevolves : (last.toList ++ savedStates id calls).IsChain Transaction.Evolves)
    (hnumbered : ∀ tx ∈ savedStates id calls, tx.Numbered) :
    db'.Consistent ∧ db'.LastSaved id (last.toList ++ savedStates id calls).getLast? := by
  induction h generalizing last with
  | nil db =>
    refine ⟨hdb, ?_⟩
    cases last <;> exact hlast
  | @cons db d db' call result calls step rest ih =>
    have hskip : SavedAs id (call, result) = false →
        savedStates id ((call, result) :: calls) = savedStates id calls := by
      intro hsaved
      simp [savedStates, hsaved]
    rcases step.cases hdb with ⟨rfl, hresult⟩ | ⟨hresult, hvalid, hd, _, _, _, _, hwritten⟩
    · rw [hskip (by simp [SavedAs, hresult])] at hevolves hnumbered ⊢
      exact ih hdb hlast hevolves hnumbered
    · by_cases hid : call.tx.id = id
      · have hcons : savedStates id ((call, result) :: calls) =
            call.tx :: savedStates id calls := by
          simp [savedStates, SavedAs, hid, hresult]
        rw [hcons] at hevolves hnumbered ⊢
        have hbefore : db.header call.tx.id = none ∨
            ∃ tx₀, db.Stores tx₀ ∧ tx₀.Evolves call.tx := by
          cases last with
          | none => exact Or.inl (hid ▸ hlast)
          | some tx₀ =>
            exact Or.inr ⟨tx₀, hlast.2.2, (List.isChain_cons_cons.mp hevolves).1⟩
        have hstores := hwritten.stores hdb hbefore (hnumbered _ List.mem_cons_self)
        have hchain : ((some call.tx).toList ++ savedStates id calls).IsChain
            Transaction.Evolves := by
          cases last with
          | none => exact hevolves
          | some tx₀ => exact (List.isChain_cons_cons.mp hevolves).2
        have hstored : d.LastSaved id (some call.tx) := ⟨hid, hvalid, hstores⟩
        obtain ⟨hconsistent, hfinal⟩ := ih hd hstored hchain
          fun tx htx => hnumbered tx (List.mem_cons_of_mem _ htx)
        refine ⟨hconsistent, ?_⟩
        cases last with
        | none => exact hfinal
        | some tx₀ => simpa [List.getLast?_cons_cons] using hfinal
      · rw [hskip (by simp [SavedAs, hid])] at hevolves hnumbered ⊢
        exact ih hd (hlast.of_ne hwritten (Ne.symm hid)) hevolves hnumbered

/-- **Save then load returns the transaction.** After any series of saves in which the states of
one new transaction evolve, loading it gives the record of its last saved state, with its outcome,
its failure code and the codes of its exceptions.

**Proof sketch.** The last saved state is stored; a stored transaction is loaded as its stored
form, which has the same record. -/
theorem load_lastSaved (hdb : db.Consistent) (hnew : db.header id = none)
    (h : SaveRun db calls db')
    (hevolves : (savedStates id calls).IsChain Transaction.Evolves)
    (hnumbered : ∀ tx ∈ savedStates id calls, tx.Numbered) {tx : Transaction}
    (htx : (savedStates id calls).getLast? = some tx) :
    ∃ loaded revision, db'.load id = .ok (loaded, revision) ∧
      SameRecord loaded.serialize tx.serialize ∧
      loaded.outcomeCategory = tx.outcomeCategory ∧
      loaded.retryDisposition = tx.retryDisposition ∧
      loaded.failureCode = tx.failureCode ∧
      loaded.orderedSteps.map (fun st => st.exceptions.map StepException.code) =
        tx.orderedSteps.map (fun st => st.exceptions.map StepException.code) := by
  have hnone : db.LastSaved id none := hnew
  obtain ⟨hconsistent, hlast⟩ := h.lastSaved hdb hnone hevolves hnumbered
  rw [Option.toList_none, List.nil_append, htx] at hlast
  obtain ⟨rfl, hvalid, hstores⟩ := hlast
  obtain ⟨revision, hload⟩ :=
    hstores.load hconsistent (hnumbered tx (List.mem_of_getLast? htx)) hvalid
  refine ⟨tx.stored, revision, hload, Transaction.serialize_stored hvalid, rfl, rfl, rfl, ?_⟩
  rw [Transaction.orderedSteps_stored]

/-- Two saves of the sample transaction, the second one after its start. -/
def startedSample : Transaction :=
  auditSample.appendHistory .transactionStarted none ⟨5, some 0⟩

/-- The saves of both states. -/
def sampleSaves : List (SaveCall × Except PyError Unit) :=
  [(.plain auditSample, .ok ()), (.plain startedSample, .ok ())]

/-- The second state of the sample transaction is loaded. -/
theorem load_lastSaved_started : ∃ db', SaveRun .empty sampleSaves db' ∧
    ∃ loaded revision, db'.load "t" = .ok (loaded, revision) ∧
      SameRecord loaded.serialize startedSample.serialize := by
  have hfirst : SaveStep (.plain auditSample) (.ok ()) .empty (auditSaved .empty) :=
    ⟨.empty, .empty, .commit rfl⟩
  have hsecond : ∃ db', SaveStep (.plain startedSample) (.ok ()) (auditSaved .empty) db' :=
    ⟨_, .empty, .empty, .commit rfl⟩
  obtain ⟨db', hsecond⟩ := hsecond
  have hrun : SaveRun .empty sampleSaves db' := .cons hfirst (.cons hsecond (.nil _))
  have hstates : savedStates "t" sampleSaves = [auditSample, startedSample] := rfl
  have hevolves : (savedStates "t" sampleSaves).IsChain Transaction.Evolves :=
    hstates ▸ .cons_cons ⟨rfl, List.nil_prefix, rfl⟩ (.singleton _)
  have hnumbered : ∀ tx ∈ savedStates "t" sampleSaves, tx.Numbered := by
    rw [hstates]
    simp [Transaction.Numbered, auditSample, startedSample, Transaction.create,
      Transaction.appendHistory]
  have hlast : (savedStates "t" sampleSaves).getLast? = some startedSample := rfl
  obtain ⟨loaded, revision, hload, hrecord, -⟩ :=
    load_lastSaved TransactionDb.consistent_empty rfl hrun hevolves hnumbered hlast
  exact ⟨db', hrun, loaded, revision, hload, hrecord⟩

/-- A transaction whose history was put together with one sequence number for two entries. -/
def doubledSample : Transaction :=
  { startedSample with history := startedSample.history ++ startedSample.history }

/-- The number of history entries of a record. -/
def recordHistory : Except PyError PyVal → ℕ
  | .ok (.dict kvs) => match (kvs.find? fun kv => kv.1.isStr "history").map Prod.snd with
    | some (.list xs) => xs.length
    | _ => 0
  | _ => 0

/-- **A doubled sequence number loses an entry**: the save succeeds, and what is loaded has another
record. -/
theorem doubled_lost : ∃ db', TransactionDb.empty.save doubledSample = .ok db' ∧
    ∃ loaded revision, db'.load "t" = .ok (loaded, revision) ∧
      ¬ SameRecord loaded.serialize doubledSample.serialize := by
  refine ⟨_, rfl, _, _, rfl, fun h => ?_⟩
  have := congrArg recordHistory h
  revert this
  decide +kernel
