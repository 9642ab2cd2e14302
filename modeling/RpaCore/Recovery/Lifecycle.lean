import RpaCore.Recovery.Resume

set_option relaxedAutoImplicit false
set_option autoImplicit false

/-!
# The lifecycle over runs, resumes, saves and loads

One transaction is run, resumed, saved and loaded in any order. The engine leaves its lifecycle
fields coherent; a resume resets the status but not the outcome, so that the fields stay coherent
exactly as long as no transaction is resumed that was stored `FAILED`.

## Main definitions

* `Transaction.Coherent` — lifecycle fields that fit together.
* `LifecycleStep`, `LifecycleRun` — an operation on a transaction, and a series of them.

## Main results

* `lifecycle_coherent_iff` — when the lifecycle fields stay coherent.
-/

namespace Transaction

/-- **Lifecycle fields that fit together**: an open transaction has no outcome, a terminal one has
the outcome of its status, and it is finished and completed. -/
structure Coherent (tx : Transaction) : Prop where
  unfinished : tx.status = .pending ∨ tx.status = .inProgress →
    tx.outcomeCategory = .unknown ∧ tx.retryDisposition = .unknown ∧ tx.failureCode = .empty ∧
      tx.finishedAt = none
  successful : tx.status = .successful → tx.outcomeCategory = .successful ∧
    tx.retryDisposition = .notApplicable ∧ tx.failureCode = .empty
  failed : tx.status = .failed → tx.outcomeCategory = .businessFailed ∨
    tx.outcomeCategory = .systemFailed ∨ tx.outcomeCategory = .validationFailed ∨
      tx.outcomeCategory = .interrupted
  terminal : tx.status = .successful ∨ tx.status = .failed → tx.finishedAt.isSome = true ∧
    tx.history.getLast?.map HistoryEntry.event = some .transactionCompleted

/-- A transaction that was never run. -/
structure Fresh (tx : Transaction) : Prop where
  status : tx.status = .pending
  outcomeCategory : tx.outcomeCategory = .unknown
  retryDisposition : tx.retryDisposition = .unknown
  failureCode : tx.failureCode = .empty
  finishedAt : tx.finishedAt = none
  history : tx.history = []

variable {tx a b c : Transaction}

/-- A fresh transaction is coherent. -/
lemma Fresh.coherent (h : tx.Fresh) : tx.Coherent where
  unfinished _ := ⟨h.outcomeCategory, h.retryDisposition, h.failureCode, h.finishedAt⟩
  successful hstatus := by
    rw [h.status] at hstatus
    cases hstatus
  failed hstatus := by
    rw [h.status] at hstatus
    cases hstatus
  terminal hstatus := by
    rw [h.status] at hstatus
    rcases hstatus with hstatus | hstatus <;> cases hstatus

/-- A transaction that a run shows is coherent. -/
lemma Shown.coherent (h : tx.Shown) : tx.Coherent ∧ tx.status ≠ .skipped := by
  rcases h with hopen | ⟨hsucceeded | hfailed, hfinished, hentry⟩
  · refine ⟨⟨fun _ => ⟨hopen.outcomeCategory, hopen.retryDisposition, hopen.failureCode,
      hopen.finishedAt⟩, ?_, ?_, ?_⟩, ?_⟩ <;> simp [hopen.status]
  · refine ⟨⟨?_, fun _ => ⟨hsucceeded.outcomeCategory, hsucceeded.retryDisposition,
      hsucceeded.failureCode⟩, ?_, fun _ => ⟨hfinished, hentry⟩⟩, ?_⟩ <;>
      simp [hsucceeded.status]
  · refine ⟨⟨?_, ?_, fun _ => hfailed.outcomeCategory, fun _ => ⟨hfinished, hentry⟩⟩, ?_⟩ <;>
      simp [hfailed.status]

/-- The stored form of a coherent transaction is coherent. -/
lemma Coherent.stored (h : tx.Coherent) : tx.stored.Coherent where
  unfinished hstatus := by
    obtain ⟨houtcome, hdisposition, hcode, hfinished⟩ := h.unfinished hstatus
    exact ⟨houtcome, hdisposition, hcode, by simp [Transaction.stored, hfinished]⟩
  successful := h.successful
  failed := h.failed
  terminal hstatus := by
    obtain ⟨hfinished, hentry⟩ := h.terminal hstatus
    exact ⟨by simpa [Transaction.stored] using hfinished, hentry⟩

/-- Growth is evolution. -/
lemma Grows.evolves (h : a.Grows b) : a.Evolves b := ⟨h.id, h.history, by rw [h.created]⟩

lemma Evolves.trans (h : a.Evolves b) (h' : b.Evolves c) : a.Evolves c :=
  ⟨h'.id.trans h.id, h.history.trans h'.history, h'.created.trans h.created⟩

/-- A transaction evolves into its stored form. -/
lemma evolves_stored (tx : Transaction) : tx.Evolves tx.stored where
  id := rfl
  history := List.prefix_rfl
  created := by
    rw [Transaction.stored, Option.map_map]
    congr 1
    funext d
    exact d.normal_normal

/-! ## Resumes -/

variable {steps : List Step} {now : Datetime}

/-- A resume resets the status and the times, and leaves the outcome. -/
lemma reset_fields (tx : Transaction) (steps : List Step) (now : Datetime) :
    (tx.reset steps now).status = .pending ∧ (tx.reset steps now).finishedAt = none ∧
      (tx.reset steps now).outcomeCategory = tx.outcomeCategory ∧
      (tx.reset steps now).retryDisposition = tx.retryDisposition ∧
      (tx.reset steps now).failureCode = tx.failureCode := by
  unfold reset
  split <;> exact ⟨rfl, rfl, rfl, rfl, rfl⟩

/-- A transaction evolves into a resumed one. -/
lemma evolves_reset (tx : Transaction) (steps : List Step) (now : Datetime) :
    tx.Evolves (tx.reset steps now) := by
  unfold reset
  split
  · exact ⟨rfl, List.prefix_rfl, rfl⟩
  · exact ⟨rfl, List.prefix_append _ _, rfl⟩

/-- A resume continues the numbers of the history. -/
lemma Sequential.reset (h : tx.Sequential) (steps : List Step) (now : Datetime) :
    (tx.reset steps now).Sequential := by
  unfold Transaction.reset
  split
  · exact h
  · exact Sequential.appendHistory (by exact h) _ _ _

/-- **A resumed transaction is coherent exactly if it was not `FAILED`.** -/
lemma coherent_reset_iff (h : tx.Coherent) (hskipped : tx.status ≠ .skipped)
    (hstatus : tx.status ≠ .successful) :
    (tx.reset steps now).Coherent ↔ tx.status ≠ .failed := by
  obtain ⟨hpending, hfinished, houtcome, hdisposition, hcode⟩ := reset_fields tx steps now
  constructor
  · intro hreset hfailed
    have hunknown := (hreset.unfinished (Or.inl hpending)).1
    rw [houtcome] at hunknown
    have := h.failed hfailed
    rw [hunknown] at this
    simp at this
  · intro hfailed
    have hopen : tx.status = .pending ∨ tx.status = .inProgress := by
      cases hs : tx.status <;> simp_all
    obtain ⟨h₁, h₂, h₃, -⟩ := h.unfinished hopen
    refine ⟨fun _ => ⟨houtcome.trans h₁, hdisposition.trans h₂, hcode.trans h₃, hfinished⟩, ?_, ?_,
      ?_⟩ <;> simp [hpending]

end Transaction

/-! ## Operations -/

/-- What an operation shows: a transaction that was given to a checkpoint or left by a run, or one
that was resumed, with the status under which it was stored. -/
inductive LifecycleEvent
  | shown (tx : Transaction)
  | resumed (stored : Status) (tx : Transaction)

namespace LifecycleEvent

/-- The transaction that is shown. -/
def tx : LifecycleEvent → Transaction
  | shown tx => tx
  | resumed _ tx => tx

/-- The event is no resume of a transaction that was stored `FAILED`. -/
def Sound : LifecycleEvent → Prop
  | shown _ => True
  | resumed stored _ => stored ≠ .failed

end LifecycleEvent

/-- One operation on a transaction and its database, with what it shows.

* A run may save the transactions it gives to its checkpoints.
* A save saves the transaction, any number of times. Other transactions may be saved meanwhile.
* A load and a resume replace the transaction by the stored one. -/
inductive LifecycleStep : Transaction → TransactionDb → List LifecycleEvent → Transaction →
    TransactionDb → Prop
  | run {tx : Transaction} {db db' : TransactionDb} (e : Engine) (ctx : RunContext)
      (env : EngineTrace → (op : EngineOp) → op.Res)
      {calls : List (SaveCall × Except PyError Unit)} (saves : SaveRun db calls db')
      (saved : (savedStates tx.id calls).Sublist (snapshots ((e.run ctx tx).run env []).2)) :
      LifecycleStep tx db ((snapshots ((e.run ctx tx).run env []).2 ++
        [((e.run ctx tx).run env []).1.2.tx]).map .shown) ((e.run ctx tx).run env []).1.2.tx db'
  | save {tx : Transaction} {db db' : TransactionDb}
      {calls : List (SaveCall × Except PyError Unit)} (saves : SaveRun db calls db')
      (saved : ∀ tx' ∈ savedStates tx.id calls, tx' = tx) : LifecycleStep tx db [] tx db'
  | load {tx loaded : Transaction} {db : TransactionDb} {revision : ℤ}
      (answer : db.load tx.id = .ok (loaded, revision)) : LifecycleStep tx db [] loaded db
  | resume {tx loaded resumed : Transaction} {db : TransactionDb} {revision : ℤ}
      {steps : List Step} {retryBusinessFailures : Bool} {definitionIdentity : Option String}
      {now : Datetime} (stored : db.load tx.id = .ok (loaded, revision))
      (answer : db.resumeTransaction tx.id steps retryBusinessFailures definitionIdentity now =
        .ok resumed) : LifecycleStep tx db [.resumed loaded.status resumed] resumed db

/-- A series of operations. -/
inductive LifecycleRun : Transaction → TransactionDb → List LifecycleEvent → Transaction →
    TransactionDb → Prop
  | nil (tx : Transaction) (db : TransactionDb) : LifecycleRun tx db [] tx db
  | cons {tx t tx' : Transaction} {db d db' : TransactionDb} {shown rest : List LifecycleEvent}
      (step : LifecycleStep tx db shown t d) (run : LifecycleRun t d rest tx' db') :
      LifecycleRun tx db (shown ++ rest) tx' db'

/-- A coherent transaction whose history is numbered from one. -/
structure Transaction.Steady (tx : Transaction) : Prop where
  coherent : tx.Coherent
  skipped : tx.status ≠ .skipped
  sequential : tx.Sequential

/-- The stored form of a steady transaction is steady. -/
lemma Transaction.Steady.stored {t : Transaction} (h : t.Steady) : t.stored.Steady :=
  ⟨h.coherent.stored, h.skipped, h.sequential⟩

/-- What holds between the operations, as long as no `FAILED` transaction was resumed. -/
structure LifecycleInvariant (tx : Transaction) (db : TransactionDb) : Prop where
  steady : tx.Steady
  consistent : db.Consistent
  stored : ∃ last, db.LastSaved tx.id last ∧ ∀ t ∈ last, t.Steady ∧ t.Evolves tx

namespace LifecycleInvariant

variable {tx tx' loaded : Transaction} {db db' : TransactionDb} {revision : ℤ}
  {calls : List (SaveCall × Except PyError Unit)}

/-- What is loaded is the stored form of a steady transaction. -/
lemma load (h : LifecycleInvariant tx db) (hload : db.load tx.id = .ok (loaded, revision)) :
    ∃ t, db.LastSaved tx.id (some t) ∧ t.Steady ∧ t.id = tx.id ∧ loaded = t.stored := by
  obtain ⟨last, hlast, hall⟩ := h.stored
  cases last with
  | none =>
    have hnone : db.header tx.id = none := hlast
    rw [TransactionDb.load, TransactionDb.readRows, hnone] at hload
    cases hload
  | some t =>
    obtain ⟨hid, hvalid, hstores⟩ := hlast
    have hsteady := (hall t rfl).1
    obtain ⟨revision', hstored⟩ := hstores.load h.consistent hsteady.sequential.increasing hvalid
    rw [← hid, hstored] at hload
    cases hload
    exact ⟨t, ⟨hid, hvalid, hstores⟩, hsteady, hid, rfl⟩

/-- Saves of steady states between the stored one and a later one. -/
lemma saves (h : LifecycleInvariant tx db) (hsaves : SaveRun db calls db')
    {states : List Transaction}
    (hsub : (savedStates tx.id calls).Sublist states) (hsteady : ∀ t ∈ states ++ [tx'], t.Steady)
    (hchain : (tx :: (states ++ [tx'])).Pairwise Transaction.Evolves) :
    LifecycleInvariant tx' db' := by
  obtain ⟨last, hlast, hall⟩ := h.stored
  obtain ⟨hfirst, hrest⟩ := List.pairwise_cons.mp hchain
  obtain ⟨hstates, -, hend⟩ := List.pairwise_append.mp hrest
  have hbefore : ∀ t ∈ last.toList ++ savedStates tx.id calls, t.Steady ∧ t.Evolves tx' := by
    intro t ht
    rcases List.mem_append.mp ht with ht | ht
    · obtain ⟨hs, he⟩ := hall t (by simpa using ht)
      exact ⟨hs, he.trans (hfirst tx' (by simp))⟩
    · exact ⟨hsteady t (List.mem_append_left _ (hsub.subset ht)),
        hend t (hsub.subset ht) tx' (by simp)⟩
  have hevolves : (last.toList ++ savedStates tx.id calls).Pairwise Transaction.Evolves := by
    refine List.pairwise_append.mpr ⟨?_, hstates.sublist hsub, fun a ha b hb => ?_⟩
    · cases last <;> simp
    · exact (hall a (by simpa using ha)).2.trans
        (hfirst b (List.mem_append_left _ (hsub.subset hb)))
  have hid : tx'.id = tx.id := (hfirst tx' (by simp)).id
  obtain ⟨hconsistent, hsaved⟩ := hsaves.lastSaved h.consistent hlast hevolves.isChain
    fun t ht => (hsteady t (List.mem_append_left _ (hsub.subset ht))).sequential.increasing
  refine ⟨hsteady tx' (by simp), hconsistent,
    (last.toList ++ savedStates tx.id calls).getLast?, by rw [hid]; exact hsaved, fun t ht => ?_⟩
  exact hbefore t (List.mem_of_getLast? ht)

/-- **One operation**: what it shows is coherent exactly if it resumes no transaction that was
stored `FAILED`, and then it keeps the invariant. -/
theorem step {events : List LifecycleEvent} (h : LifecycleInvariant tx db)
    (hstep : LifecycleStep tx db events tx' db') :
    ((∀ ev ∈ events, ev.tx.Coherent) ↔ ∀ ev ∈ events, ev.Sound) ∧
      ((∀ ev ∈ events, ev.Sound) → LifecycleInvariant tx' db') := by
  cases hstep with
  | @run _ _ e ctx env calls saves saved =>
    generalize hshown : snapshots ((e.run ctx tx).run env []).2 = shown at saved ⊢
    generalize hfinal : ((e.run ctx tx).run env []).1.2.tx = final
    have hall : (∀ t ∈ shown ++ [final], t.Steady) ∧
        (tx :: (shown ++ [final])).Pairwise Transaction.Evolves := by
      rcases Engine.run_shows e ctx tx env with ⟨-, hsame, hnone⟩ | ⟨hlineage, hend⟩
      · rw [hshown] at hnone
        rw [hfinal] at hsame
        rw [hnone, hsame]
        exact ⟨by simpa using h.steady, by simpa using (Transaction.Grows.refl tx).evolves⟩
      · rw [hshown, hfinal] at hlineage
        rw [hfinal] at hend
        refine ⟨fun t ht => ?_, ?_⟩
        · have hshown : t.Shown := by
            rcases List.mem_append.mp ht with ht | ht
            · exact hlineage.all_shown t ht
            · rw [List.mem_singleton.mp ht]
              exact hend
          exact ⟨hshown.coherent.1, hshown.coherent.2,
            hlineage.sequential h.steady.sequential t ht⟩
        · have hchain : (tx :: (shown ++ [final])).IsChain Transaction.Evolves :=
            hlineage.chain.imp fun _ _ hgrows => hgrows.evolves
          have : IsTrans Transaction Transaction.Evolves := ⟨fun _ _ _ h h' => h.trans h'⟩
          exact hchain.pairwise
    refine ⟨iff_of_true (fun ev hev => ?_) fun ev hev => ?_, fun _ =>
      h.saves saves saved hall.1 hall.2⟩
    · obtain ⟨t, ht, rfl⟩ := List.mem_map.mp hev
      exact (hall.1 t ht).coherent
    · obtain ⟨t, ht, rfl⟩ := List.mem_map.mp hev
      trivial
  | @save _ _ calls saves saved =>
    refine ⟨by simp, fun _ => ?_⟩
    have hstates : ∀ t ∈ savedStates tx.id calls ++ [tx], t = tx := by
      intro t ht
      rcases List.mem_append.mp ht with ht | ht
      · exact saved t ht
      · exact List.mem_singleton.mp ht
    refine h.saves saves (List.Sublist.refl _) (fun t ht => hstates t ht ▸ h.steady) ?_
    refine List.pairwise_of_forall_mem_list fun a ha b hb => ?_
    have hsame : ∀ t ∈ tx :: (savedStates tx.id calls ++ [tx]), t = tx :=
      List.forall_mem_cons.mpr ⟨rfl, hstates⟩
    rw [hsame a ha, hsame b hb]
    exact (Transaction.Grows.refl tx).evolves
  | load answer =>
    refine ⟨by simp, fun _ => ?_⟩
    obtain ⟨t, hlast, hsteady, hid, rfl⟩ := h.load answer
    refine ⟨hsteady.stored, h.consistent, some t, ?_, fun t' ht' => ?_⟩
    · rw [show t.stored.id = tx.id from hid]
      exact hlast
    · cases ht'
      exact ⟨hsteady, Transaction.evolves_stored t⟩
  | @resume _ _ _ revision steps retryBusinessFailures _ now stored answer =>
    obtain ⟨t, hlast, hsteady, hid, rfl⟩ := h.load stored
    rw [TransactionDb.resumeTransaction, stored] at answer
    have hkept : ∀ tx', t.stored.Evolves tx' → tx'.Steady → LifecycleInvariant tx' db := by
      intro tx' hevolves hsteady'
      refine ⟨hsteady', h.consistent, some t, ?_, fun t' ht' => ?_⟩
      · rw [hevolves.id, show t.stored.id = tx.id from hid]
        exact hlast
      · cases ht'
        exact ⟨hsteady, (Transaction.evolves_stored t).trans hevolves⟩
    rw [List.forall_mem_singleton, List.forall_mem_singleton]
    rcases Transaction.prepareResumed_ok answer with ⟨hstatus, rfl⟩ | ⟨hstatus, -, rfl⟩
    · refine ⟨iff_of_true hsteady.stored.coherent ?_, fun _ =>
        hkept _ (Transaction.Grows.refl _).evolves hsteady.stored⟩
      change t.stored.status ≠ .failed
      rw [hstatus]
      decide
    · have hiff : (t.stored.reset (t.stored.orderedSteps.map
          (t.stored.restored retryBusinessFailures)) now).Coherent ↔ t.stored.status ≠ .failed :=
        Transaction.coherent_reset_iff hsteady.stored.coherent hsteady.stored.skipped hstatus
      refine ⟨hiff, fun hsound => hkept _ (Transaction.evolves_reset _ _ _) ⟨hiff.mpr hsound, ?_,
        hsteady.stored.sequential.reset _ _⟩⟩
      rw [(Transaction.reset_fields _ _ _).1]
      decide

end LifecycleInvariant

/-- **When the lifecycle fields stay coherent.** Over any series of runs, resumes, saves and loads
of a fresh transaction, everything that is given to a checkpoint, left by a run or resumed is
coherent if and only if no transaction was resumed that was stored `FAILED`.

**Proof sketch.** Every operation keeps the invariant (`LifecycleInvariant.step`) up to the first
resume of a `FAILED` transaction, which leaves the outcome of the failure on a `PENDING` one. -/
theorem lifecycle_coherent_iff {tx tx' : Transaction} {db db' : TransactionDb}
    {events : List LifecycleEvent} (hfresh : tx.Fresh) (hdb : db.Consistent)
    (hnew : db.header tx.id = none) (h : LifecycleRun tx db events tx' db') :
    (∀ ev ∈ events, ev.tx.Coherent) ↔ ∀ ev ∈ events, ev.Sound := by
  have hsteady : tx.Steady := by
    refine ⟨hfresh.coherent, by simp [hfresh.status], ?_⟩
    simp [Transaction.Sequential, hfresh.history]
  have hinv : LifecycleInvariant tx db := ⟨hsteady, hdb, none, hnew, by simp⟩
  clear hfresh hdb hnew hsteady
  induction h with
  | nil => simp
  | @cons _ t _ _ d _ shown rest step run ih =>
    obtain ⟨hiff, hnext⟩ := hinv.step step
    rw [List.forall_mem_append, List.forall_mem_append, hiff]
    exact and_congr_right fun hsound => ih (hnext hsound)

/-! ## A failed transaction -/

/-- A fresh transaction with one step that can be resumed. -/
def resumableSample : Transaction :=
  .create "T" "1" ⟨0, some 0⟩ [Step.create "a" 1] ⟨"flow", by decide⟩

/-- The sample is fresh. -/
lemma resumableSample_fresh : resumableSample.Fresh := ⟨rfl, rfl, rfl, rfl, rfl, rfl⟩

/-- The result of a step that raises an ordinary exception. -/
def broken : StepResult := bareResult (some (.runtimeError "broken")) .inProgress

/-- The transaction after a run whose step is broken. -/
def brokenSample : Transaction :=
  (((Engine.create 0).run Engine.stillContext resumableSample).run (alwaysEnds broken) []).1.2.tx

/-- The run of the broken step, and a save of what it leaves. -/
lemma broken_saved : ∃ db' events, LifecycleRun resumableSample .empty events brokenSample db' ∧
    TransactionDb.empty.save brokenSample = .ok db' ∧ ∀ ev ∈ events, ev.Sound := by
  obtain ⟨db', hsave⟩ : ∃ db', TransactionDb.empty.save brokenSample = .ok db' := ⟨_, rfl⟩
  have hsaves : SaveRun .empty [(.plain brokenSample, .ok ())] db' := by
    refine .cons ⟨.empty, .empty, .commit ?_⟩ (.nil _)
    simp only [SaveCall.run, Store.save, hsave]
    rfl
  have hrun : LifecycleStep resumableSample .empty _ brokenSample .empty :=
    .run (Engine.create 0) Engine.stillContext (alwaysEnds broken) (.nil _) (List.nil_sublist _)
  have hsaved : LifecycleStep brokenSample .empty [] brokenSample db' := by
    refine .save hsaves fun tx' htx' => ?_
    have hstates : savedStates brokenSample.id [(.plain brokenSample, .ok ())] =
        [brokenSample] := rfl
    rw [hstates] at htx'
    exact List.mem_singleton.mp htx'
  refine ⟨db', _, .cons hrun (.cons hsaved (.nil _ _)), hsave, fun ev hev => ?_⟩
  rw [List.append_nil, List.append_nil] at hev
  obtain ⟨t, -, rfl⟩ := List.mem_map.mp hev
  trivial

/-- A run and a save without a resume show coherent transactions. -/
theorem lifecycle_coherent_broken : ∃ db' events,
    LifecycleRun resumableSample .empty events brokenSample db' ∧
      ∀ ev ∈ events, ev.tx.Coherent := by
  obtain ⟨db', events, hrun, -, hsound⟩ := broken_saved
  exact ⟨db', events, hrun, (lifecycle_coherent_iff resumableSample_fresh
    TransactionDb.consistent_empty rfl hrun).mpr hsound⟩

/-- **A resume keeps the outcome of the failure**: the transaction of a broken step is run, saved
and resumed, and what is resumed is `PENDING` with the outcome of the run before. -/
theorem resumed_incoherent : ∃ db' events resumed,
    LifecycleRun resumableSample .empty events brokenSample db' ∧
      LifecycleStep brokenSample db' [.resumed .failed resumed] resumed db' ∧
        resumed.status = .pending ∧ resumed.outcomeCategory = .systemFailed ∧
          ¬ resumed.Coherent := by
  obtain ⟨db', events, hrun, hsave, -⟩ := broken_saved
  obtain ⟨d, loaded, revision, resumed, hd, hload, hresume, hstored, hstatus, houtcome⟩ :
      ∃ d loaded revision resumed, TransactionDb.empty.save brokenSample = .ok d ∧
        d.load "1" = .ok (loaded, revision) ∧
          d.resumeTransaction "1" [Step.create "a" 1] false (some "flow") ⟨0, some 0⟩ =
            .ok resumed ∧ loaded.status = .failed ∧ resumed.status = .pending ∧
              resumed.outcomeCategory = .systemFailed :=
    ⟨_, _, _, _, rfl, rfl, rfl, rfl, rfl, rfl⟩
  obtain rfl : db' = d := by
    rw [hsave] at hd
    exact Except.ok.inj hd
  refine ⟨db', events, resumed, hrun, ?_, hstatus, houtcome, fun hcoherent => ?_⟩
  · have hstep : LifecycleStep brokenSample db' [.resumed loaded.status resumed] resumed db' :=
      .resume hload hresume
    rwa [hstored] at hstep
  · have := (hcoherent.unfinished (Or.inl hstatus)).1
    rw [houtcome] at this
    cases this
