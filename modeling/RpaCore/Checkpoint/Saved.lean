import RpaCore.Checkpoint.Reload

set_option relaxedAutoImplicit false
set_option autoImplicit false

/-!
# The copy that was saved last

Copies of a transaction may be saved in any order. The header and the children that are stored are
those of the copy that was saved last, except what is written once: the creation time, the
definition identity and the history.

## Main definitions

* `TransactionDb.Keeps` — a copy of a transaction is stored, apart from what is written once.

## Main results

* `TransactionDb.Keeps.load` — what is loaded of a transaction, and that it is valid.
* `SaveRun.keeps` — any series of saves keeps the copy that was saved last.
* `SaveRun.saved` — every stored transaction has been saved.
-/

/-- A header shows a copy of its transaction, apart from the creation time. -/
structure TransactionRow.Shows (row : TransactionRow) (tx : Transaction) : Prop where
  id : row.id = tx.id
  reference : row.reference = tx.reference
  status : row.status = tx.status
  retryCount : row.retryCount = tx.retryCount
  startedAt : row.startedAt = tx.startedAt.map Datetime.normal
  finishedAt : row.finishedAt = tx.finishedAt.map Datetime.normal
  state : row.state = tx.state
  outcomeCategory : row.outcomeCategory = tx.outcomeCategory
  retryDisposition : row.retryDisposition = tx.retryDisposition
  failureCode : row.failureCode = tx.failureCode
  definitionIdentity : row.definitionIdentity = tx.definitionIdentity

namespace TransactionDb

variable {db db' : TransactionDb} {tx tx₀ : Transaction} {expectedRevision : Option ℤ}
  {queueItemId claimToken : String} {revision : ℤ}

/-- A valid copy of a transaction is stored, apart from what is written once. -/
structure Keeps (db : TransactionDb) (tx : Transaction) : Prop where
  valid : tx.Valid
  holds : db.Holds tx
  header : ∃ row, db.header tx.id = some row ∧ row.Shows tx

/-- A write keeps its copy. -/
lemma Written.keeps (h : Written tx expectedRevision queueItemId claimToken db revision db')
    (hvalid : tx.Valid) : db'.Keeps tx where
  valid := hvalid
  holds := h.holds
  header := by
    have hidentity : (db.previous tx).definitionIdentity = tx.definitionIdentity := by
      unfold previous
      cases hheader : db.header tx.id with
      | none => rfl
      | some row => exact h.identity row hheader
    refine ⟨_, h.header_self, ?_⟩
    exact ⟨previous_id tx db, rfl, rfl, rfl, rfl, rfl, rfl, rfl, rfl, rfl, hidentity⟩

/-- A write of another transaction keeps a copy. -/
lemma Written.keeps_of_ne (h : Written tx expectedRevision queueItemId claimToken db revision db')
    (hne : tx₀.id ≠ tx.id) (hkeeps : db.Keeps tx₀) : db'.Keeps tx₀ where
  valid := hkeeps.valid
  holds := h.holds_of_ne hne hkeeps.holds
  header := by
    rw [h.header_of_ne hne]
    exact hkeeps.header

/-- What is loaded of a valid transaction is valid. -/
lemma valid_reloaded (hvalid : tx.Valid) {row : TransactionRow} (hrow : row.Shows tx)
    (history : List HistoryRow) : (tx.reloaded row history).Valid := by
  have hdurable : (tx.reloaded row history).validateDurableData = .ok () := by
    rw [← Transaction.validateDurableData_stored hvalid, Transaction.validateDurableData,
      Transaction.validateDurableData, Transaction.durableValues, Transaction.durableValues]
    rw [show (tx.reloaded row history).state = tx.stored.state from hrow.state]
    rfl
  have hsteps : Transaction.checkSteps [] [] (tx.reloaded row history).steps = .ok () :=
    Transaction.checkSteps_perm (List.perm_insertionSort _ _) hvalid.parts.1
  have hreference : isBlank (tx.reloaded row history).reference = false := by
    change isBlank row.reference = false
    rw [hrow.reference]
    unfold Transaction.Valid Transaction.validateForExecution at hvalid
    split_ifs at hvalid with hblank
    simpa using hblank
  rw [Transaction.Valid, Transaction.validateForExecution, if_neg (by simp [hreference]), hsteps]
  exact hdurable

/-- **Loading a copy that is stored** gives a valid transaction with its steps. -/
theorem Keeps.load (hdb : db.Consistent) (h : db.Keeps tx) :
    ∃ row, db.header tx.id = some row ∧ row.Shows tx ∧
      db.load tx.id = .ok (tx.reloaded row (db.historyOf tx.id), row.revision) ∧
      (tx.reloaded row (db.historyOf tx.id)).Valid := by
  obtain ⟨row, hheader, hrow⟩ := h.header
  exact ⟨row, hheader, hrow, h.holds.load hdb h.valid hheader hrow.state,
    valid_reloaded h.valid hrow _⟩

end TransactionDb

/-! ## Series of saves -/

variable {db db' : TransactionDb} {calls : List (SaveCall × Except PyError Unit)} {id : String}

/-- A series of saves keeps the copy of a transaction that was stored or saved last. -/
lemma SaveRun.keeps_last (h : SaveRun db calls db') (hdb : db.Consistent)
    {last : Option Transaction} (hlast : ∀ tx ∈ last, tx.id = id ∧ db.Keeps tx) :
    ∀ tx ∈ (last.toList ++ savedStates id calls).getLast?, tx.id = id ∧ db'.Keeps tx := by
  induction h generalizing last with
  | nil db =>
    cases last with
    | none => simp [savedStates]
    | some tx₀ => simpa [savedStates] using hlast
  | @cons db d db' call result calls step rest ih =>
    rcases step.cases hdb with ⟨rfl, hresult⟩ | ⟨hresult, hvalid, hd, _, _, _, _, hwritten⟩
    · rw [show savedStates id ((call, result) :: calls) = savedStates id calls by
        simp [savedStates, SavedAs, hresult]]
      exact ih hdb hlast
    · by_cases hid : call.tx.id = id
      · have hcons : savedStates id ((call, result) :: calls) =
            call.tx :: savedStates id calls := by
          simp [savedStates, SavedAs, hid, hresult]
        have hsaved : ∀ tx ∈ some call.tx, tx.id = id ∧ d.Keeps tx := by
          simpa using ⟨hid, hwritten.keeps hvalid⟩
        have hkept := ih hd hsaved
        rw [hcons]
        cases last with
        | none => exact hkept
        | some tx₀ => simpa [List.getLast?_cons_cons] using hkept
      · rw [show savedStates id ((call, result) :: calls) = savedStates id calls by
          simp [savedStates, SavedAs, hid]]
        refine ih hd fun tx htx => ?_
        obtain ⟨rfl, hkeeps⟩ := hlast tx htx
        exact ⟨rfl, hwritten.keeps_of_ne (Ne.symm hid) hkeeps⟩

/-- **The copy that was saved last is stored.** -/
theorem SaveRun.keeps (h : SaveRun db calls db') (hdb : db.Consistent) {tx : Transaction}
    (htx : (savedStates id calls).getLast? = some tx) : tx.id = id ∧ db'.Keeps tx :=
  @SaveRun.keeps_last _ _ _ _ h hdb none (by simp) tx (by simpa using htx)

/-- A stored transaction was there before the saves, or has been saved. -/
lemma SaveRun.header_saved (h : SaveRun db calls db') (hdb : db.Consistent)
    (hheader : db'.header id ≠ none) : db.header id ≠ none ∨ savedStates id calls ≠ [] := by
  induction h with
  | nil db => exact Or.inl hheader
  | @cons db d db' call result calls step rest ih =>
    rcases step.cases hdb with ⟨rfl, hresult⟩ | ⟨hresult, -, hd, _, _, _, _, hwritten⟩
    · refine (ih hdb hheader).imp_right fun hne => ?_
      rwa [show savedStates id ((call, result) :: calls) = savedStates id calls by
        simp [savedStates, SavedAs, hresult]]
    · by_cases hid : call.tx.id = id
      · refine Or.inr ?_
        simp [savedStates, SavedAs, hid, hresult]
      · refine (ih hd hheader).imp (fun hne => ?_) fun hne => ?_
        · rwa [hwritten.header_of_ne (Ne.symm hid)] at hne
        · rwa [show savedStates id ((call, result) :: calls) = savedStates id calls by
            simp [savedStates, SavedAs, hid]]

/-- **Every transaction of a database that was filled by saves has been saved**, and its last copy
is stored. -/
theorem SaveRun.saved (h : SaveRun .empty calls db') (hheader : db'.header id ≠ none) :
    ∃ tx, (savedStates id calls).getLast? = some tx ∧ tx.id = id ∧ db'.Keeps tx := by
  rcases h.header_saved TransactionDb.consistent_empty hheader with hne | hne
  · exact absurd rfl hne
  · obtain ⟨tx, htx⟩ := Option.isSome_iff_exists.mp (List.getLast?_isSome.mpr hne)
    exact ⟨tx, htx, h.keeps TransactionDb.consistent_empty htx⟩
