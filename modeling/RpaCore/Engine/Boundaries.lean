import RpaCore.Engine.Discipline

set_option relaxedAutoImplicit false
set_option autoImplicit false

/-!
# The checkpoints around a halting failure

A business failure that halts the remaining steps is recorded in two parts: the failure is given to
a checkpoint, then the pending steps behind it are skipped and given to the next one. A process that
stops in between leaves a snapshot with a failed step whose skips are missing. This file says what
every snapshot shows that is taken once the body has raised.

## Main definitions

* `Waits` — a step behind the failed one that was still to be executed.
* `HaltPhase`, `haltPhase` — how far the record of a halting failure has got.
* `Transaction.Halted` — the failure with its skips, as a snapshot shows them.

## Main results

* `Transaction.Halted.preservesSkip` — a resume keeps the skips of such a snapshot.
* `Engine.wp_body_halting` — what a run gives to its checkpoints after a halting failure.
* `Engine.run_halted` — the first snapshot has the steps pending, all later ones have them skipped.
-/

/-- A step waits behind the failed one: it was `PENDING` when the body of that one was called. -/
def Waits (failed : Step) (given : Transaction) (o : ℤ) : Prop :=
  failed.executionOrder < o ∧ given.pendingAt o = true

/-! ## The record of a halting failure -/

/-- How far the record of a halting failure has got: no body has raised one yet, one has, and the
failure was given to a checkpoint. -/
inductive HaltPhase
  | going
  | raised (failed : Step) (given : Transaction)
  | recorded (failed : Step) (given : Transaction)

/-- The phase after one more event. -/
def HaltPhase.next : HaltPhase → Event EngineOp EngineOp.Res → HaltPhase
  | .going, ⟨.execute st tx, r⟩ =>
    if r.ending = some (.businessFailed true) then .raised st tx else .going
  | .raised st tx, ⟨.checkpoint _, _⟩ => .recorded st tx
  | phase, _ => phase

/-- The phase of a run after its events. -/
def haltPhase (t : EngineTrace) : HaltPhase := t.foldl HaltPhase.next .going

/-- One more event. -/
lemma haltPhase_snoc (t : EngineTrace) (ev : Event EngineOp EngineOp.Res) :
    haltPhase (t ++ [ev]) = (haltPhase t).next ev := by
  simp [haltPhase]

/-- Before the first halting failure a run is going. -/
lemma haltPhase_going {t : EngineTrace} (h : ∀ x ∈ executionsOf t, ¬ x.Halts) :
    haltPhase t = .going := by
  induction t using List.reverseRecOn with
  | nil => rfl
  | append_singleton t ev ih =>
    have hbefore : ∀ x ∈ executionsOf t, ¬ x.Halts := fun x hx => h x (by
      rw [executionsOf, List.filterMap_append]
      exact List.mem_append_left _ hx)
    rw [haltPhase_snoc, ih hbefore]
    obtain ⟨op | ⟨st, tx⟩ | directory, r⟩ := ev
    · rfl
    · refine if_neg fun hends => h ⟨st, tx, r.ending⟩ ?_ hends
      rw [executionsOf_execute]
      exact List.mem_append_right _ (List.mem_singleton_self _)
    · rfl

/-- After a halting failure the phase tells whether a checkpoint has been called. -/
lemma haltPhase_raised {a : EngineTrace} (ha : haltPhase a = .going) {failed : Step}
    {given : Transaction} {r : StepResult} (hr : r.ending = some (.businessFailed true))
    (b : EngineTrace) : haltPhase (a ++ ⟨.execute failed given, r⟩ :: b) =
      if snapshots b = [] then .raised failed given else .recorded failed given := by
  induction b using List.reverseRecOn with
  | nil =>
    rw [haltPhase_snoc, ha]
    exact if_pos hr
  | append_singleton b ev ih =>
    rw [← List.cons_append, ← List.append_assoc, haltPhase_snoc, ih]
    obtain ⟨tx | ⟨st, tx⟩ | directory, res⟩ := ev
    · have hmore : snapshots (b ++ [⟨.checkpoint tx, res⟩]) = snapshots b ++ [tx] :=
        snapshots_snoc b (.checkpoint tx) res
      rw [hmore, if_neg (show ¬ snapshots b ++ [tx] = [] by simp)]
      split <;> rfl
    · have hsame : snapshots (b ++ [⟨.execute st tx, res⟩]) = snapshots b ++ [] :=
        snapshots_snoc b (.execute st tx) res
      rw [hsame, List.append_nil]
      split <;> rfl
    · have hsame : snapshots (b ++ [⟨.captureScreenshot directory, res⟩]) = snapshots b ++ [] :=
        snapshots_snoc b (.captureScreenshot directory) res
      rw [hsame, List.append_nil]
      split <;> rfl

namespace Transaction

/-- **A halting failure with its skips**: the failed step ends in a halting business failure, and
every step that waited behind it is `SKIPPED`, by an entry with the retry number of the failure. -/
def Halted (tx : Transaction) (failed : Step) (given : Transaction) : Prop :=
  ∃ retry, (∃ own ∈ tx.steps, haltingFailure own = some (failed.executionOrder, retry)) ∧
    ∀ o, Waits failed given o → ∃ st ∈ tx.steps, st.executionOrder = o ∧ st.status = .skipped ∧
      ∃ entry ∈ tx.history, entry.label = ⟨.stepSkipped, some st.key, retry⟩

variable {failed : Step} {given tx tx' : Transaction}

/-- The same steps under a history that goes on. -/
lemma Halted.congr (h : tx.Halted failed given) (hsteps : ∀ st, st ∈ tx'.steps ↔ st ∈ tx.steps)
    (hhistory : ∀ entry ∈ tx.history, entry ∈ tx'.history) : tx'.Halted failed given := by
  obtain ⟨retry, ⟨own, hown, hfailure⟩, hskips⟩ := h
  refine ⟨retry, ⟨own, (hsteps own).mpr hown, hfailure⟩, fun o ho => ?_⟩
  obtain ⟨st, hst, horder, hskipped, entry, hentry, hlabel⟩ := hskips o ho
  exact ⟨st, (hsteps st).mpr hst, horder, hskipped, entry, hhistory entry hentry, hlabel⟩

/-- **A resume without `retry_business_failures` keeps the skips** of a halting failure, whether the
snapshot was taken within a run or at its end.

**Proof sketch.** A snapshot of a run in progress keeps every skip; at the end of a run the entries
of the skips name the failure by its retry number. -/
theorem Halted.preservesSkip (h : tx.Halted failed given) {o : ℤ} (ho : Waits failed given o) :
    ∃ st ∈ tx.steps, st.executionOrder = o ∧ st.status = .skipped ∧
      tx.preservesSkip false st.key = true := by
  obtain ⟨retry, ⟨own, hown, hfailure⟩, hskips⟩ := h
  obtain ⟨st, hst, horder, hskipped, entry, hentry, hlabel⟩ := hskips o ho
  refine ⟨st, hst, horder, hskipped, ?_⟩
  rw [Transaction.preservesSkip, Bool.false_and, Bool.not_false, Bool.and_true]
  split
  · exact List.any_eq_true.mpr ⟨st, hst, by simp [hskipped]⟩
  · have hevent : entry.event = .stepSkipped := congrArg Label.event hlabel
    have hretry : entry.retryNumber = retry := congrArg Label.retryNumber hlabel
    obtain ⟨order, horder', hkey⟩ := Option.map_eq_some_iff.mp (congrArg Label.step hlabel)
    have hname : entry.stepName = st.name := congrArg Prod.fst hkey
    have hst' : order = st.executionOrder := congrArg Prod.snd hkey
    refine decide_eq_true (List.mem_filterMap.mpr ⟨entry, hentry, ?_⟩)
    have hhalting : (failed.executionOrder, retry) ∈ tx.steps.filterMap haltingFailure :=
      List.mem_filterMap.mpr ⟨own, hown, hfailure⟩
    rw [horder']
    subst hst'
    simp only [hevent, decide_true, Bool.true_and, hname]
    refine if_pos (List.any_eq_true.mpr ⟨_, hhalting, ?_⟩)
    simp [hretry, horder, ho.1]

end Transaction

namespace EngineState

variable {ctx : RunContext} {step : Step} {s : EngineState}

/-- The exception that a failure leaves last, up to the path of its screenshot. -/
lemma haltingFailure_failed {st : Step} {exc : BusinessException} (hhalts : exc.haltsRemainingSteps)
    (hstatus : st.status = .failed) (hlast : st.exceptions.getLast? = some (.business exc)) :
    Transaction.haltingFailure st = some (st.executionOrder, exc.retryNumber) := by
  unfold Transaction.haltingFailure
  rw [hlast]
  simp [hstatus, hhalts]

/-- The skips after a halting failure append an entry for every pending step behind it. -/
lemma appends_skipDownstream_ordered (hw : s.tx.Wired) {own : Step}
    (hown : s.tx.stepAt step.executionOrder = some own) : ∃ keys : List StepKey,
      Transaction.Appends (keys.map fun key => ⟨.stepSkipped, some key, s.tx.retryCount⟩) s.tx
        (s.skipDownstream ctx step false s.tx.orderedSteps).tx ∧
      ∀ st ∈ s.tx.steps, step.executionOrder < st.executionOrder → st.status = .pending →
        st.key ∈ keys := by
  have hself : own.executionOrder = step.executionOrder :=
    Transaction.executionOrder_of_stepAt hown
  have hmem : own ∈ s.tx.orderedSteps :=
    Transaction.mem_orderedSteps.mpr (Transaction.mem_of_stepAt hown)
  obtain ⟨before, after, hsteps⟩ := List.append_of_mem hmem
  have hsorted : s.tx.orderedSteps.Pairwise fun a b => a.executionOrder < b.executionOrder := by
    have := hw.pairwise_orderedKeys
    rwa [Transaction.orderedKeys, List.pairwise_map] at this
  rw [hsteps] at hsorted
  obtain ⟨-, htail, hbefore⟩ := List.pairwise_append.mp hsorted
  obtain ⟨hafter, hrest⟩ := List.pairwise_cons.mp htail
  rw [hsteps, skipDownstream_before (fun st hst => hself ▸
    (ne_of_lt (hbefore st hst own List.mem_cons_self))) hself]
  obtain ⟨happends, -⟩ := skipDownstream_after ctx s
    (fun st hst => hself ▸ (ne_of_gt (hafter st hst)))
    (List.pairwise_map.mpr (hrest.imp fun h => ne_of_lt h))
  refine ⟨_, happends, fun st hst hlt hpending => List.mem_filter.mpr ⟨?_, ?_⟩⟩
  · have hin : st ∈ before ++ own :: after :=
      hsteps ▸ Transaction.mem_orderedSteps.mpr hst
    rcases List.mem_append.mp hin with hin | hin
    · have := hbefore st hin own List.mem_cons_self
      omega
    · rcases List.mem_cons.mp hin with rfl | hin
      · omega
      · exact List.mem_map_of_mem hin
  · rw [Transaction.pendingAt]
    change ((s.tx.stepAt st.executionOrder).any fun st => st.status = .pending) = true
    rw [hw.stepAt hst]
    simpa using hpending

/-- **The skips complete the record**: they leave the failure, and every pending step behind it is
`SKIPPED` with an entry of the same retry number. -/
lemma halted_skipDownstream (hw : s.tx.Wired) {own failed : Step} {given : Transaction}
    (horder : step.executionOrder = failed.executionOrder)
    (hown : s.tx.stepAt step.executionOrder = some own)
    (hfailure : Transaction.haltingFailure own = some (own.executionOrder, s.tx.retryCount))
    (hpending : ∀ o, Waits failed given o → s.tx.pendingAt o = true) :
    (s.skipDownstream ctx step false s.tx.orderedSteps).tx.Halted failed given := by
  have hself : own.executionOrder = step.executionOrder :=
    Transaction.executionOrder_of_stepAt hown
  have hat := @stepAt_skipDownstream_ordered ctx step s hw own hown
  obtain ⟨keys, ⟨entries, hhistory, hlabels, -⟩, hkeys⟩ :=
    @appends_skipDownstream_ordered ctx step s hw own hown
  refine ⟨s.tx.retryCount, ⟨own, ?_, ?_⟩, fun o ho => ?_⟩
  · have hkept := hat step.executionOrder
    rw [hown, Option.map_some, if_neg (by simp)] at hkept
    exact Transaction.mem_of_stepAt hkept
  · rw [hfailure, hself, horder]
  · obtain ⟨st, hst, hstatus⟩ := (Option.any_eq_true _ _).mp (hpending o ho)
    have hst' : st.executionOrder = o := Transaction.executionOrder_of_stepAt hst
    have hlt : step.executionOrder < o := horder ▸ ho.1
    have hskipped := hat o
    rw [hst, Option.map_some, if_pos ⟨hlt, by simpa using hstatus⟩] at hskipped
    have hkey := hkeys st (Transaction.mem_of_stepAt hst) (hst' ▸ hlt) (by simpa using hstatus)
    have hlabel : (⟨.stepSkipped, some st.key, s.tx.retryCount⟩ : Label) ∈
        entries.map HistoryEntry.label := hlabels ▸ List.mem_map_of_mem hkey
    obtain ⟨entry, hentry, heq⟩ := List.mem_map.mp hlabel
    exact ⟨_, Transaction.mem_of_stepAt hskipped, hst', rfl, entry,
      hhistory ▸ List.mem_append_right _ hentry, heq⟩

end EngineState

namespace Engine

/-! ## What a run gives to its checkpoints -/

/-- What a checkpoint is given after a halting failure: first the waiting steps are still pending,
then the record is complete. -/
def HaltPhase.Allows : HaltPhase → EngineOp → Prop
  | .raised failed given, .checkpoint tx => ∀ o, Waits failed given o → tx.pendingAt o = true
  | .recorded failed given, .checkpoint tx => tx.Halted failed given
  | _, _ => True

/-- The monitor of the snapshots around a halting failure. Once a body has raised one, only ordinary
answers are admitted. -/
def halting : Monitor EngineOp EngineOp.Res EngineTrace :=
  traceMonitor (fun t op => HaltPhase.Allows (haltPhase t) op)
    fun t op r => haltPhase t = .going ∨ op.Ordinary r

variable {e : Engine} {ctx : RunContext} {blocked : Option (List ℤ)} {step st : Step}
  {s s' : EngineState} {t : EngineTrace} {retry : ℕ}

/-- A run that goes on after an exception: no halting failure was raised before, or the exception is
an ordinary one. -/
def Escapes (err : PyError) (_ : EngineState) (t : EngineTrace) : Prop :=
  haltPhase t = .going ∨ err.isMemoryError = false

/-- A checkpoint before any halting failure. -/
lemma wp_checkpoint_going {Q : Unit → EngineState → EngineTrace → Prop}
    {R : PyError → EngineState → EngineTrace → Prop} (h : haltPhase t = .going)
    (hQ : ∀ t', haltPhase t' = .going → Q () s t')
    (hR : ∀ err t', haltPhase t' = .going → R err s t') :
    (checkpoint ctx).wp halting Q R s t := by
  cases hc : ctx.hasCheckpoint with
  | false => exact (wp_checkpoint_off hc).mpr (hQ t h)
  | true =>
    have hnext : ∀ answer : Option PyError,
        haltPhase (t ++ [⟨.checkpoint s.tx, answer⟩]) = .going := by
      intro answer
      rw [haltPhase_snoc, h]
      rfl
    rw [wp_checkpoint hc]
    split
    · exact hR _ t h
    · refine ⟨?_, fun answer _ => ?_⟩
      · change HaltPhase.Allows (haltPhase t) _
        rw [h]
        trivial
      · cases answer with
        | none => exact hQ _ (hnext none)
        | some err => exact hR _ _ (hnext (some err))

/-- A checkpoint after a halting failure. -/
lemma wp_checkpoint_halting {Q : Unit → EngineState → EngineTrace → Prop}
    (h : haltPhase t ≠ .going)
    (hallows : ctx.hasCheckpoint = true → HaltPhase.Allows (haltPhase t) (.checkpoint s.tx))
    (hoff : ctx.hasCheckpoint = false → Q () s t)
    (hQ : ∀ t', haltPhase t' = (haltPhase t).next ⟨.checkpoint s.tx, none⟩ → Q () s t') :
    (checkpoint ctx).wp halting Q Escapes s t := by
  cases hc : ctx.hasCheckpoint with
  | false => exact (wp_checkpoint_off hc).mpr (hoff hc)
  | true =>
    rw [wp_checkpoint hc]
    split
    · exact Or.inr rfl
    · refine ⟨hallows hc, fun answer hadmits => ?_⟩
      cases answer with
      | none => exact hQ _ (haltPhase_snoc t _)
      | some err => exact Or.inr ((hadmits.resolve_left h) err rfl).2

/-- The record of a halting failure is complete, in a run with checkpoints. -/
def Recorded (ctx : RunContext) (s : EngineState) (t : EngineTrace) : Prop :=
  haltPhase t ≠ .going ∧ (ctx.hasCheckpoint = true → ∃ failed given,
    haltPhase t = .recorded failed given ∧ s.tx.Halted failed given)

/-- A checkpoint once the record is complete. -/
lemma wp_checkpoint_recorded {Q : Unit → EngineState → EngineTrace → Prop} (h : Recorded ctx s t)
    (hQ : ∀ t', Recorded ctx s t' → Q () s t') : (checkpoint ctx).wp halting Q Escapes s t := by
  obtain ⟨hphase, hrecorded⟩ := h
  refine wp_checkpoint_halting hphase (fun hc => ?_) (fun _ => hQ t ⟨hphase, hrecorded⟩)
    fun t' ht' => hQ t' ?_
  · obtain ⟨failed, given, heq, hhalted⟩ := hrecorded hc
    rw [heq]
    exact hhalted
  · cases hp : haltPhase t with
    | going => exact absurd hp hphase
    | raised failed given =>
      rw [hp] at ht'
      refine ⟨by rw [ht']; exact HaltPhase.noConfusion, fun hc => ?_⟩
      obtain ⟨failed', given', heq, -⟩ := hrecorded hc
      rw [hp] at heq
      cases heq
    | recorded failed given =>
      rw [hp] at ht'
      refine ⟨by rw [ht']; exact HaltPhase.noConfusion, fun hc => ?_⟩
      obtain ⟨failed', given', heq, hhalted⟩ := hrecorded hc
      rw [hp] at heq
      cases heq
      exact ⟨failed, given, ht', hhalted⟩

/-! ## Attempts -/

/-- The recording of a failure that does not halt. -/
lemma wp_recordFailure_going {exc : StepException} (h : haltPhase t = .going) :
    (recordFailure e ctx step exc).wp halting (fun _ _ t' => haltPhase t' = .going) Escapes
      s t := by
  refine wp_recordFailure (wp_checkpoint_going h (fun _ h => h) fun _ _ h => Or.inl h)
    ⟨?_, fun answer _ => ?_⟩
  · change HaltPhase.Allows (haltPhase t) _
    rw [h]
    trivial
  · have hnext : haltPhase (t ++ [⟨.captureScreenshot e.screenshotDir, answer⟩]) = .going := by
      rw [haltPhase_snoc, h]
      rfl
    cases answer with
    | error err => exact Or.inl hnext
    | ok path => exact wp_checkpoint_going hnext (fun _ h => h) fun _ _ h => Or.inl h

/-- The engine between the two parts of the record: the failure is recorded, and the waiting steps
are pending. -/
structure Recording (step failed : Step) (given : Transaction) (retry : ℕ) (s : EngineState) :
    Prop where
  wired : s.tx.Wired
  count : s.tx.retryCount = retry
  failure : ∃ own, s.tx.stepAt step.executionOrder = some own ∧
    Transaction.haltingFailure own = some (own.executionOrder, retry)
  pending : ∀ o, Waits failed given o → s.tx.pendingAt o = true

variable {failed : Step} {given : Transaction}

/-- **The first part of the record** is given to a checkpoint with the waiting steps pending. -/
lemma wp_recordFailure_halting {exc : BusinessException} (hhalts : exc.haltsRemainingSteps = true)
    (hretry : exc.retryNumber = s.tx.retryCount) (hw : s.tx.Wired)
    (hst : s.tx.stepAt step.executionOrder = some st)
    (horder : step.executionOrder = failed.executionOrder)
    (hpending : ∀ o, Waits failed given o → s.tx.pendingAt o = true)
    (ht : haltPhase t = .raised failed given) :
    (recordFailure e ctx step (.business exc)).wp halting (fun _ s' t' =>
      Recording step failed given s.tx.retryCount s' ∧ haltPhase t' ≠ .going ∧
        (ctx.hasCheckpoint = true → haltPhase t' = .recorded failed given)) Escapes s t := by
  have hne : ∀ {o}, Waits failed given o → o ≠ step.executionOrder :=
    fun ho => horder ▸ ne_of_gt ho.1
  have hnext : ∀ {s' : EngineState} {t' : EngineTrace}, haltPhase t' = .raised failed given →
      Recording step failed given s.tx.retryCount s' →
      (checkpoint ctx).wp halting (fun _ s' t' =>
        Recording step failed given s.tx.retryCount s' ∧ haltPhase t' ≠ .going ∧
          (ctx.hasCheckpoint = true → haltPhase t' = .recorded failed given)) Escapes s' t' := by
    intro s' t' ht' hrecording
    refine wp_checkpoint_halting (by rw [ht']; exact HaltPhase.noConfusion) (fun _ => ?_)
      (fun hc => ⟨hrecording, by rw [ht']; exact HaltPhase.noConfusion, fun h => ?_⟩)
      fun t'' ht'' => ?_
    · rw [ht']
      exact hrecording.pending
    · rw [hc] at h
      cases h
    · rw [ht'] at ht''
      exact ⟨hrecording, by rw [ht'']; exact HaltPhase.noConfusion, fun _ => ht''⟩
  have hfail : Recording step failed given s.tx.retryCount
      (s.failStep ctx step (.business exc)) := by
    refine ⟨(EngineState.grows_failStep ctx step s _).wired hw, rfl, ⟨{ st with
      status := .failed
      exceptions := st.exceptions ++ [.business exc] }, by simp [hst], ?_⟩, fun o ho => ?_⟩
    · rw [EngineState.haltingFailure_failed hhalts rfl (by simp), hretry]
    · simpa [Transaction.pendingAt, hne ho] using hpending o ho
  refine wp_recordFailure (hnext ht hfail) ⟨?_, fun answer hadmits => ?_⟩
  · change HaltPhase.Allows (haltPhase t) _
    rw [ht]
    trivial
  · have hsame : haltPhase (t ++ [⟨.captureScreenshot e.screenshotDir, answer⟩]) =
        .raised failed given := by
      rw [haltPhase_snoc, ht]
      rfl
    have hordinary := hadmits.resolve_left (by rw [ht]; exact HaltPhase.noConfusion)
    cases answer with
    | error err => exact Or.inr (hordinary err rfl).2
    | ok path =>
      refine hnext hsame ⟨(EngineState.grows_attachScreenshot ctx step _ path).wired hfail.wired,
        ?_, ⟨{ st with
          status := .failed
          exceptions := st.exceptions ++ [EngineState.setScreenshot path (.business exc)] },
          by simp [hst], ?_⟩, fun o ho => ?_⟩
      · unfold EngineState.attachScreenshot
        split <;> rfl
      · have hlast : (st.exceptions ++ [EngineState.setScreenshot path (.business exc)]).getLast? =
            some (.business { exc with screenshotPath := path }) := by
          simp [EngineState.setScreenshot]
        have hstill :
            ({ exc with screenshotPath := path } : BusinessException).haltsRemainingSteps = true :=
          hhalts
        rw [EngineState.haltingFailure_failed hstill rfl hlast, hretry]
      · simpa [Transaction.pendingAt, hne ho] using hpending o ho

/-- What follows a body: the record of a halting failure is completed, and any other ending leaves
the run going.

**Proof sketch.** A halting failure is recorded, and then the steps that wait behind it are skipped;
an ending that is none keeps the phase. -/
lemma wp_settleStep_halting {r : StepResult} (hw : s.tx.Wired)
    (hst : s.tx.stepAt step.executionOrder = some st)
    (horder : step.executionOrder = failed.executionOrder)
    (hpending : ∀ o, Waits failed given o → s.tx.pendingAt o = true)
    (ht : haltPhase t =
      if r.ending = some (.businessFailed true) then .raised failed given else .going) :
    (settleStep e ctx step r).wp halting (fun flow s' t' => haltPhase t' = .going ∨
      (flow = .stop ∧ Recorded ctx s' t')) Escapes s t := by
  refine wp_settleStep (fun hreturned => ?_) (fun exc s' hfails htx => ?_)
    (fun message hraised => ?_) fun err hraised hescape => ?_
  · have hgoing : haltPhase t = .going := by
      rw [ht, if_neg]
      rw [StepResult.ending, hreturned]
      by_cases hskipped : r.status = .skipped <;> simp [hskipped]
    exact wp_checkpoint_going hgoing (fun _ h => Or.inl h) fun _ _ h => Or.inl h
  · have hending := hfails.ending
    have hretry := hfails.retryNumber
    cases exc with
    | business exc =>
      cases hhalts : exc.haltsRemainingSteps with
      | false =>
        have hgoing : haltPhase t = .going := by
          rw [ht, if_neg]
          simp [hending, StepException.isBusiness, StepException.haltsRemainingSteps, hhalts]
        refine Proc.wp_mono (wp_recordFailure_going hgoing) (fun _ _ _ h => ?_) fun _ _ _ h => h
        simpa [StepException.isBusiness, StepException.haltsRemainingSteps, hhalts] using h
      | true =>
        have hraised : haltPhase t = .raised failed given := by
          rw [ht, if_pos]
          simp [hending, StepException.isBusiness, StepException.haltsRemainingSteps, hhalts]
        have hretry' : exc.retryNumber = s'.tx.retryCount := hretry.trans (by rw [htx])
        refine Proc.wp_mono (wp_recordFailure_halting hhalts hretry' (htx ▸ hw) (htx ▸ hst) horder
          (htx ▸ hpending) hraised) ?_ fun _ _ _ h => h
        rintro _ s₁ t₁ ⟨hrecording, hphase, hrecorded⟩
        simp only [StepException.isBusiness, StepException.haltsRemainingSteps, hhalts, if_true,
          skipDownstreamPendingSteps, Proc.wp_bind, Proc.wp_modify]
        obtain ⟨own, hown, hfailure⟩ := hrecording.failure
        have hhalted := @EngineState.halted_skipDownstream ctx _ _ hrecording.wired _ _ _ horder
          hown (by rw [hrecording.count]; exact hfailure) hrecording.pending
        refine wp_checkpoint_recorded ⟨hphase, fun hc => ?_⟩ fun t₂ h₂ => Or.inr ⟨trivial, h₂⟩
        exact ⟨failed, given, hrecorded hc, hhalted⟩
    | system exc =>
      have hgoing : haltPhase t = .going := by
        rw [ht, if_neg]
        simp [hending, StepException.isBusiness]
      refine Proc.wp_mono (wp_recordFailure_going hgoing) (fun _ _ _ h => ?_) fun _ _ _ h => h
      simpa [StepException.isBusiness] using Or.inl h
  · have hgoing : haltPhase t = .going := by
      rw [ht, if_neg]
      simp [StepResult.ending, hraised, PyError.IsOrdinary, PyError.isMemoryError]
    exact wp_checkpoint_going hgoing (fun _ h => Or.inl h) fun _ _ h => Or.inl h
  · refine Or.inl ?_
    rw [ht, if_neg]
    simp [StepResult.ending_of_escape hraised hescape]

/-- **One attempt** of a run that is going: it goes on, or it has stopped its pass with a complete
record. -/
theorem wp_attempt_halting (hw : s.tx.Wired) (hst : s.tx.stepAt step.executionOrder = some st)
    (ht : haltPhase t = .going) :
    (attempt e ctx step).wp halting (fun flow s' t' => haltPhase t' = .going ∨
      (flow = .stop ∧ Recorded ctx s' t')) Escapes s t := by
  rw [wp_attempt]
  refine wp_checkpoint_going ht (fun t₁ ht₁ => ⟨?_, fun r _ => ?_⟩) fun _ _ h => Or.inl h
  · change HaltPhase.Allows (haltPhase t₁) _
    rw [ht₁]
    trivial
  · have hcall : ((s.startStep ctx step).tx.stepAt step.executionOrder).getD step =
        { st with status := .inProgress } := by
      rw [EngineState.stepAt_startStep, hst, Option.map_some, if_pos rfl, Option.getD_some]
    have horder : st.executionOrder = step.executionOrder :=
      Transaction.executionOrder_of_stepAt hst
    have hown : ((s.startStep ctx step).absorb step r).tx.stepAt step.executionOrder =
        some { st with status := r.status, arguments := r.arguments } := by
      simp [hst]
    have hpending : ∀ o, Waits { st with status := .inProgress } (s.startStep ctx step).tx o →
        ((s.startStep ctx step).absorb step r).tx.pendingAt o = true := by
      intro o ho
      have hne : o ≠ step.executionOrder := horder ▸ ne_of_gt ho.1
      simpa [Transaction.pendingAt, hne] using ho.2
    refine wp_settleStep_halting (((EngineState.grows_startStep ctx step s).trans
      (EngineState.grows_absorb step _ r)).wired hw) hown
      (show step.executionOrder = ({ st with status := .inProgress } : Step).executionOrder from
        horder.symm) hpending ?_
    rw [hcall]
    change haltPhase (t₁ ++ [_]) = _
    rw [haltPhase_snoc, ht₁]
    rfl

/-! ## Passes and whole runs -/

/-- After a pass a run is going, or the record of a halting failure is complete. -/
def Halting (ctx : RunContext) (s : EngineState) (t : EngineTrace) : Prop :=
  haltPhase t = .going ∨ Recorded ctx s t

/-- A checkpoint after a pass. -/
lemma wp_checkpoint_between {Q : Unit → EngineState → EngineTrace → Prop} (h : Halting ctx s t)
    (hQ : ∀ t', Halting ctx s t' → executionsOf t' = executionsOf t → Q () s t') :
    (checkpoint ctx).wp halting Q Escapes s t := by
  have hsame : (checkpoint ctx).wp (executing fun _ _ _ => True)
      (fun _ s' t' => s' = s ∧ executionsOf t' = executionsOf t) (fun _ _ _ => True) s t :=
    wp_checkpoint_executing fun _ ht => ⟨rfl, ht⟩
  refine Proc.wp_mono (Proc.wp_trace_and (Q := fun _ s' t' => s' = s ∧ Halting ctx s t')
    (R := Escapes) ?_ hsame) ?_ fun _ _ _ h => h.1
  · rcases h with hgoing | hrecorded
    · exact wp_checkpoint_going hgoing (fun _ h => ⟨rfl, Or.inl h⟩) fun _ _ h => Or.inl h
    · exact wp_checkpoint_recorded hrecorded fun _ h => ⟨rfl, Or.inr h⟩
  · rintro _ s' t' ⟨⟨rfl, hhalting⟩, -, hexec⟩
    exact hQ t' hhalting hexec

/-- **A pass** of a run that is going. -/
theorem wp_executePass_halting (h : Within blocked s.tx.orderedSteps retry s (executionsOf t))
    (ht : haltPhase t = .going) :
    (executePass e ctx blocked).wp halting (fun _ s' t' =>
      Between retry s' (executionsOf t') ∧ Halting ctx s' t') Escapes s t := by
  rw [wp_executePass]
  refine wp_passLoop (I := fun rest s t => Within blocked rest retry s (executionsOf t) ∧
    haltPhase t = .going) (fun _ _ h => ⟨h.1.ended, Or.inl h.2⟩)
    (fun _ _ _ _ h hpasses => ⟨h.1.skip hpasses, h.2⟩) ?_ ⟨h, ht⟩
  rintro step rest s t ⟨h, ht⟩ hpasses
  obtain ⟨st, hst, -⟩ := h.pending hpasses
  have horder : st.executionOrder = step.executionOrder :=
    Transaction.executionOrder_of_stepAt hst
  have htried := @wp_attempt_tried e ctx s t (fun _ _ _ => True) step st h.wired hst trivial
  refine Proc.wp_mono (Proc.wp_trace_and (wp_attempt_halting h.wired hst ht) htried) ?_
    fun _ _ _ h => h.1
  rintro flow s' t' ⟨hphase, ending, hexec, rfl, htried⟩
  rw [hexec]
  cases hstops : ending.stops with
  | false =>
    rw [hstops] at hphase
    refine ⟨h.next hpasses htried hstops horder h.count rfl, hphase.resolve_right ?_⟩
    rintro ⟨hstop, -⟩
    cases hstop
  | true => exact ⟨h.stopped hpasses htried hstops h.count rfl, hphase.imp_right And.right⟩

/-- Once a body has raised a halting failure there is nothing to retry. -/
lemma Between.goes_on (h : Between retry s (executionsOf t))
    (hretryable : s.tx.retryableFailedSteps ≠ []) : haltPhase t = .going :=
  haltPhase_going fun x hx hhalts =>
    hretryable (((h.executed x hx).2.1 hhalts).retryable h.wired)

/-- **The retry loop** ends as it began, once a halting failure is recorded. -/
lemma wp_retryLoop_halting {n : ℕ} (h : Between retry s (executionsOf t)) (ht : Halting ctx s t) :
    (retryLoop e ctx n).wp halting (fun _ s' t' => Halting ctx s' t') Escapes s t := by
  induction n generalizing retry s t with
  | zero => exact ht
  | succ n ih =>
    rw [retryLoop_succ]
    simp only [Proc.wp_bind, Proc.wp_get]
    refine Proc.wp_ite (fun _ => ht) fun hsome => ?_
    have hretryable : s.tx.retryableFailedSteps ≠ [] := by simpa using hsome
    simp only [retryPass, Proc.wp_bind, Proc.wp_get, Proc.wp_modify]
    refine wp_sleepBeforeRetry ?_ fun _ => Or.inr rfl
    refine Proc.wp_mono (wp_executePass_halting (h.again ctx hretryable)
      (h.goes_on hretryable)) ?_ fun _ _ _ h => h
    rintro _ s₁ t₁ ⟨h₁, ht₁⟩
    exact wp_checkpoint_between ht₁ fun t₂ ht₂ hexec => ih (hexec ▸ h₁) ht₂

variable {tx : Transaction}

/-- A later state with the same steps shows the same record. -/
lemma Halting.congr (h : Halting ctx s t) (hsteps : s'.tx.steps = s.tx.steps)
    (hhistory : s.tx.history <+: s'.tx.history) : Halting ctx s' t := by
  refine h.imp_right fun hrecorded => ⟨hrecorded.1, fun hc => ?_⟩
  obtain ⟨failed, given, hphase, hhalted⟩ := hrecorded.2 hc
  exact ⟨failed, given, hphase, hhalted.congr (fun st => by rw [hsteps])
    fun entry hentry => hhistory.subset hentry⟩

/-- **What a run gives to its checkpoints after a halting failure.** -/
theorem wp_body_halting (e : Engine) (ctx : RunContext) (hgiven : tx.Given) :
    (body e ctx).wp halting (fun _ _ _ => True) (fun _ _ _ => True) ⟨tx, 0⟩ [] := by
  refine wp_body (fun _ _ => trivial) fun hvalid => ?_
  refine Proc.wp_mono (wp_checkpoint_between (Or.inl rfl) (Q := fun _ s' t' =>
    s' = (⟨tx, 0⟩ : EngineState).begin ctx ∧ haltPhase t' = .going ∧ executionsOf t' = []) ?_) ?_
    fun _ _ _ _ => trivial
  · intro t' ht' hexec
    exact ⟨rfl, haltPhase_going (by rw [hexec]; simp [executionsOf]), hexec⟩
  · rintro _ s₁ t₁ ⟨rfl, ht₁, hexec⟩
    have hwithin := within_begin ctx hgiven hvalid
    rw [← hexec] at hwithin
    refine Proc.wp_mono (Q := fun _ s₂ t₂ => Halting ctx s₂ t₂) (R := Escapes) ?_ ?_ ?_
    · simp only [passes, Proc.wp_bind, Proc.wp_get]
      refine Proc.wp_mono (wp_executePass_halting hwithin ht₁) ?_ fun _ _ _ h => h
      rintro _ s₂ t₂ ⟨h₂, ht₂⟩
      exact wp_retryLoop_halting h₂ ht₂
    · intro _ s₂ t₂ ht₂
      refine Proc.wp_mono (wp_checkpoint_between (ht₂.congr (EngineState.outcome_steps s₂.tx)
        (EngineState.grows_settle ctx s₂).history) (Q := fun _ _ _ => True)
        fun _ _ _ => trivial) (fun _ _ _ h => h) fun _ _ _ _ => trivial
    · intro err s₂ t₂ hescapes
      refine wp_handleInterrupt (fun _ => trivial) fun hmemory => ?_
      have hgoing : haltPhase t₂ = .going := hescapes.resolve_right (by simp [hmemory])
      refine wp_checkpoint_going hgoing (fun _ _ => trivial) fun _ _ _ => ?_
      split <;> trivial

/-- **The snapshots after a halting failure.** In a run of a fresh or resumed transaction a body
raises one, and the calls from then on are answered as usual, up to a checkpoint. If that is the
first one, it is given the waiting steps as `PENDING`; any later one is given the failure with its
skips.

**Proof sketch.** The failure is recorded with one checkpoint, the skips with the next; nothing is
left to be retried then, so that the run settles with the steps as they are. -/
theorem run_halted {env : EngineTrace → (op : EngineOp) → op.Res} (hgiven : tx.Given)
    {a b c : EngineTrace} {failed : Step} {given snap : Transaction} {r : StepResult}
    {answer : Option PyError} (hrun : ((e.run ctx tx).run env []).2 =
      a ++ ⟨.execute failed given, r⟩ :: (b ++ ⟨.checkpoint snap, answer⟩ :: c))
    (hhalts : r.ending = some (.businessFailed true))
    (hordinary : ∀ ev ∈ b, ev.op.Ordinary ev.res) :
    (snapshots b = [] → ∀ o, Waits failed given o → snap.pendingAt o = true) ∧
      (snapshots b ≠ [] → snap.Halted failed given) := by
  have hfollow := (retry_discipline e ctx tx env hgiven).2.2.1
  -- no body has raised a halting failure before
  have hbefore : ∀ u v, a = u ++ v → haltPhase u = .going := by
    rintro u v rfl
    refine haltPhase_going fun x hx => ?_
    have hsplit : executionsOf ((e.run ctx tx).run env []).2 = executionsOf u ++
        (executionsOf v ++ ⟨failed, given, r.ending⟩ ::
          executionsOf (b ++ ⟨.checkpoint snap, answer⟩ :: c)) := by
      rw [hrun]
      simp [executionsOf]
    rw [hsplit] at hfollow
    exact ((List.pairwise_append.mp hfollow).2.2 x hx ⟨failed, given, r.ending⟩ (by simp)).goesOn
  have hphase : ∀ b, haltPhase (a ++ ⟨.execute failed given, r⟩ :: b) =
      if snapshots b = [] then .raised failed given else .recorded failed given :=
    haltPhase_raised (hbefore a [] (by simp)) hhalts
  have hhonest : halting.Honest [] (a ++ ⟨.execute failed given, r⟩ :: b) := by
    refine honest_traceMonitor fun u ev v huv => ?_
    rcases List.append_eq_append_iff.mp huv with ⟨w, rfl, hw⟩ | ⟨w, rfl, hw⟩
    · cases w with
      | nil => exact Or.inl (by simpa using hbefore a [] (by simp))
      | cons d w =>
        cases hw
        exact Or.inr (hordinary ev (by simp))
    · exact Or.inl (hbefore u w rfl)
  have hsplit : (((body e ctx).start ⟨tx, 0⟩).run env []).2 =
      [] ++ ((a ++ ⟨.execute failed given, r⟩ :: b) ++ ⟨.checkpoint snap, answer⟩ :: c) := by
    rw [List.nil_append, List.append_assoc]
    exact hrun
  have hpre := Prog.wp_run_prefix env (wp_body_halting e ctx hgiven) hsplit hhonest
  rw [halting, replay_traceMonitor, List.nil_append] at hpre
  change HaltPhase.Allows (haltPhase (a ++ ⟨.execute failed given, r⟩ :: b)) _ at hpre
  rw [hphase b] at hpre
  constructor
  · intro hnone
    rw [if_pos hnone] at hpre
    exact hpre
  · intro hsome
    rw [if_neg hsome] at hpre
    exact hpre

end Engine
