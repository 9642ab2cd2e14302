import RpaCore.Engine.Basic

set_option relaxedAutoImplicit false
set_option autoImplicit false

/-!
# What the engine's updates change and keep

Every update of the engine is made of a few primitives: one step changed in place, one history
entry appended, lifecycle fields set. This file computes the step at each execution order and
the history after every update, and collects what no update of the engine undoes.

## Main definitions

* `StepException.bare` — an exception without the path of its screenshot.
* `Transaction.Grows` — the steps keep their keys and only gain exceptions, and the history is
  only appended to.

## Main results

* `Transaction.stepAt_updateStep`, `EngineState.stepAt_startStep`, … — the step at each order
  after an update.
* `EngineState.grows_startStep`, … — every update only grows the transaction.
-/

/-- An exception without the path of its screenshot, the one field that is set after it was
recorded. -/
def StepException.bare : StepException → StepException
  | .business e => .business { e with screenshotPath := "" }
  | .system e => .system { e with screenshotPath := "" }

namespace StepException

@[simp] lemma bare_isBusiness (exc : StepException) : exc.bare.isBusiness = exc.isBusiness := by
  cases exc <;> rfl

@[simp] lemma bare_retryNumber (exc : StepException) : exc.bare.retryNumber = exc.retryNumber := by
  cases exc <;> rfl

@[simp] lemma bare_code (exc : StepException) : exc.bare.code = exc.code := by cases exc <;> rfl

@[simp] lemma bare_message (exc : StepException) : exc.bare.message = exc.message := by
  cases exc <;> rfl

@[simp] lemma bare_haltsRemainingSteps (exc : StepException) :
    exc.bare.haltsRemainingSteps = exc.haltsRemainingSteps := by
  cases exc <;> rfl

/-- Setting a screenshot path is invisible on the bare exception. -/
@[simp] lemma bare_setScreenshot (path : String) (exc : StepException) :
    (EngineState.setScreenshot path exc).bare = exc.bare := by
  cases exc <;> rfl

end StepException

namespace Transaction

/-! ## Looking up a step -/

/-- The step found at an order has that order. -/
lemma executionOrder_of_stepAt {tx : Transaction} {o : ℤ} {st : Step} (h : tx.stepAt o = some st) :
    st.executionOrder = o := by
  simpa using List.find?_some h

/-- The step found at an order is one of the steps. -/
lemma mem_of_stepAt {tx : Transaction} {o : ℤ} {st : Step} (h : tx.stepAt o = some st) :
    st ∈ tx.steps :=
  List.mem_of_find?_eq_some h

/-- With distinct orders, a step is found at its own order. -/
lemma Wired.stepAt {tx : Transaction} (hw : tx.Wired) {st : Step} (h : st ∈ tx.steps) :
    tx.stepAt st.executionOrder = some st := by
  have hn := hw.orders
  unfold Transaction.stepAt
  generalize tx.steps = steps at h hn
  induction steps with
  | nil => simp at h
  | cons a rest ih =>
    rw [List.map_cons, List.nodup_cons] at hn
    rcases List.mem_cons.mp h with rfl | h'
    · simp
    · have hne : a.executionOrder ≠ st.executionOrder := fun heq =>
        hn.1 (heq ▸ List.mem_map.mpr ⟨st, h', rfl⟩)
      rw [List.find?_cons_of_neg (by simpa using hne)]
      exact ih h' hn.2

/-- With distinct orders, membership and lookup agree. -/
lemma Wired.mem_iff {tx : Transaction} (hw : tx.Wired) {st : Step} :
    st ∈ tx.steps ↔ tx.stepAt st.executionOrder = some st :=
  ⟨hw.stepAt, mem_of_stepAt⟩

/-- Lookup after a change of one step. -/
lemma stepAt_updateStep (tx : Transaction) (o o' : ℤ) (f : Step → Step)
    (hf : ∀ st, (f st).executionOrder = st.executionOrder) :
    (tx.updateStep o f).stepAt o' =
      (tx.stepAt o').map fun st => if o' = o then f st else st := by
  unfold Transaction.stepAt updateStep
  generalize tx.steps = steps
  induction steps with
  | nil => rfl
  | cons a rest ih =>
    by_cases ha : a.executionOrder = o'
    · by_cases ho : o' = o
      · simp [ha, ho, hf]
      · have hao : a.executionOrder ≠ o := by rw [ha]; exact ho
        simp [ha, ho]
    · have hright : List.find? (fun st : Step => decide (st.executionOrder = o')) (a :: rest) =
          List.find? (fun st : Step => decide (st.executionOrder = o')) rest :=
        List.find?_cons_of_neg (by simpa using ha)
      rw [hright]
      by_cases hao : a.executionOrder = o
      · have : (f a).executionOrder ≠ o' := by rw [hf]; exact ha
        simpa [hao, this, ha] using ih
      · simpa [hao, ha] using ih

@[simp] lemma stepAt_appendHistory (tx : Transaction) (ev : HistoryEvent) (st : Option Step)
    (d : Datetime) (o : ℤ) : (tx.appendHistory ev st d).stepAt o = tx.stepAt o := rfl

@[simp] lemma steps_appendHistory (tx : Transaction) (ev : HistoryEvent) (st : Option Step)
    (d : Datetime) : (tx.appendHistory ev st d).steps = tx.steps := rfl

/-- The steps in execution order are the steps. -/
@[simp] lemma mem_orderedSteps {tx : Transaction} {st : Step} :
    st ∈ tx.orderedSteps ↔ st ∈ tx.steps := by
  simp [orderedSteps]

/-! ## Growth -/

/-- One step grows into another: same key, and no recorded exception lost. -/
def StepGrows (a b : Step) : Prop :=
  a.key = b.key ∧ a.exceptions.map StepException.bare <+: b.exceptions.map StepException.bare

/-- What no update of the engine undoes. -/
structure Grows (a b : Transaction) : Prop where
  steps : List.Forall₂ StepGrows a.steps b.steps
  history : a.history <+: b.history
  id : b.id = a.id
  identity : b.definitionIdentity = a.definitionIdentity
  reference : b.reference = a.reference
  created : b.createdAt = a.createdAt

lemma StepGrows.refl (a : Step) : StepGrows a a := ⟨rfl, List.prefix_refl _⟩

lemma StepGrows.trans {a b c : Step} (h : StepGrows a b) (h' : StepGrows b c) : StepGrows a c :=
  ⟨h.1.trans h'.1, h.2.trans h'.2⟩

/-- Growth by changing the steps in place and setting fields that growth does not watch. -/
lemma Grows.of_map {a b : Transaction} (f : Step → Step) (hf : ∀ st, StepGrows st (f st))
    (hsteps : b.steps = a.steps.map f) (hh : a.history <+: b.history) (hid : b.id = a.id)
    (hdef : b.definitionIdentity = a.definitionIdentity) (href : b.reference = a.reference)
    (hcr : b.createdAt = a.createdAt) : a.Grows b := by
  refine ⟨?_, hh, hid, hdef, href, hcr⟩
  rw [hsteps, List.forall₂_map_right_iff]
  exact List.forall₂_same.mpr fun st _ => hf st

/-- Setting fields that growth does not watch is growth. -/
lemma Grows.of_fields {a b : Transaction} (hsteps : b.steps = a.steps)
    (hh : b.history = a.history) (hid : b.id = a.id)
    (hdef : b.definitionIdentity = a.definitionIdentity) (href : b.reference = a.reference)
    (hcr : b.createdAt = a.createdAt) : a.Grows b :=
  Grows.of_map (fun st => st) StepGrows.refl (by simp [hsteps]) (hh ▸ List.prefix_refl _) hid hdef
    href hcr

lemma Grows.refl (a : Transaction) : a.Grows a := Grows.of_fields rfl rfl rfl rfl rfl rfl

lemma Grows.trans {a b c : Transaction} (h : a.Grows b) (h' : b.Grows c) : a.Grows c where
  steps := by
    have htrans : ∀ (l₁ l₂ l₃ : List Step), List.Forall₂ StepGrows l₁ l₂ →
        List.Forall₂ StepGrows l₂ l₃ → List.Forall₂ StepGrows l₁ l₃ := by
      intro l₁ l₂ l₃ h₁
      induction h₁ generalizing l₃ with
      | nil => intro h₂; cases h₂; exact .nil
      | cons hab _ ih =>
        intro h₂
        cases h₂ with
        | cons hbc ht => exact .cons (hab.trans hbc) (ih _ ht)
    exact htrans _ _ _ h.steps h'.steps
  history := h.history.trans h'.history
  id := h'.id.trans h.id
  identity := h'.identity.trans h.identity
  reference := h'.reference.trans h.reference
  created := h'.created.trans h.created

/-- Growth keeps the list of keys. -/
lemma Grows.keys {a b : Transaction} (h : a.Grows b) :
    b.steps.map Step.key = a.steps.map Step.key := by
  have := h.steps
  generalize a.steps = l at this
  generalize b.steps = l' at this
  induction this with
  | nil => rfl
  | cons hab _ ih => simp [hab.1, ih]

/-- Growth keeps the list of orders. -/
lemma Grows.orders {a b : Transaction} (h : a.Grows b) :
    b.steps.map Step.executionOrder = a.steps.map Step.executionOrder := by
  have := congrArg (List.map Prod.snd) h.keys
  simpa [Function.comp_def, Step.key] using this

/-- Growth keeps the list of names. -/
lemma Grows.names {a b : Transaction} (h : a.Grows b) :
    b.steps.map Step.name = a.steps.map Step.name := by
  have := congrArg (List.map Prod.fst) h.keys
  simpa [Function.comp_def, Step.key] using this

/-- Growth keeps a transaction wired. -/
lemma Grows.wired {a b : Transaction} (h : a.Grows b) (hw : a.Wired) : b.Wired where
  names := h.names ▸ hw.names
  orders := h.orders ▸ hw.orders
  positive st hst := by
    have : st.executionOrder ∈ a.steps.map Step.executionOrder :=
      h.orders ▸ List.mem_map.mpr ⟨st, hst, rfl⟩
    obtain ⟨st', hst', heq⟩ := List.mem_map.mp this
    exact heq ▸ hw.positive st' hst'

/-- The step at an order before growth has grown into the step at that order after it. -/
lemma Grows.stepAt {a b : Transaction} (h : a.Grows b) {o : ℤ} {st : Step}
    (hst : a.stepAt o = some st) : ∃ st', b.stepAt o = some st' ∧ StepGrows st st' := by
  have hs := h.steps
  unfold Transaction.stepAt at hst ⊢
  generalize a.steps = l at hs hst
  generalize b.steps = l' at hs
  induction hs with
  | nil => simp at hst
  | @cons x y _ _ hxy _ ih =>
    have hk : x.executionOrder = y.executionOrder := congrArg Prod.snd hxy.1
    by_cases hx : x.executionOrder = o
    · rw [List.find?_cons_of_pos (by simpa using hx)] at hst
      cases hst
      exact ⟨y, List.find?_cons_of_pos (by simpa [← hk] using hx), hxy⟩
    · rw [List.find?_cons_of_neg (by simpa using hx)] at hst
      rw [List.find?_cons_of_neg (by simpa [← hk] using hx)]
      exact ih hst

/-- Every step has grown into some step. -/
lemma Grows.mem {a b : Transaction} (h : a.Grows b) {st : Step} (hst : st ∈ a.steps) :
    ∃ st' ∈ b.steps, StepGrows st st' := by
  have hs := h.steps
  generalize a.steps = l at hs hst
  generalize b.steps = l' at hs
  induction hs with
  | nil => simp at hst
  | @cons x y _ _ hxy _ ih =>
    rcases List.mem_cons.mp hst with rfl | hst
    · exact ⟨y, List.mem_cons_self, hxy⟩
    · obtain ⟨st', hst', hg⟩ := ih hst
      exact ⟨st', List.mem_cons_of_mem _ hst', hg⟩

/-- Growth by changing one step. -/
lemma grows_updateStep (tx : Transaction) (o : ℤ) (f : Step → Step)
    (hf : ∀ st, StepGrows st (f st)) : tx.Grows (tx.updateStep o f) := by
  refine Grows.of_map (fun st => if st.executionOrder = o then f st else st) (fun st => ?_) rfl
    (List.prefix_refl _) rfl rfl rfl rfl
  split
  · exact hf st
  · exact StepGrows.refl st

/-- Growth by one history entry. -/
lemma grows_appendHistory (tx : Transaction) (ev : HistoryEvent) (st : Option Step)
    (d : Datetime) : tx.Grows (tx.appendHistory ev st d) :=
  Grows.of_map (fun st => st) StepGrows.refl (by simp) (List.prefix_append _ _) rfl rfl rfl rfl

end Transaction

/-! ## The updates of the engine -/

namespace EngineState

variable (ctx : RunContext) (step : Step) (s : EngineState)

@[simp] lemma append_tx (ev : HistoryEvent) (st : Option Step) :
    (s.append ctx ev st).tx = s.tx.appendHistory ev st (ctx.clock s.ticks) := rfl

@[simp] lemma stepAt_setStatus (status : Status) (o : ℤ) :
    (s.setStatus step status).tx.stepAt o = (s.tx.stepAt o).map fun st =>
      if o = step.executionOrder then { st with status := status } else st :=
  Transaction.stepAt_updateStep _ _ _ _ fun _ => rfl

@[simp] lemma stepAt_pushException (exc : StepException) (o : ℤ) :
    (s.pushException step exc).tx.stepAt o = (s.tx.stepAt o).map fun st =>
      if o = step.executionOrder then { st with exceptions := st.exceptions ++ [exc] } else st :=
  Transaction.stepAt_updateStep _ _ _ _ fun _ => rfl

/-- The steps after the beginning of an attempt. -/
@[simp] lemma stepAt_startStep (o : ℤ) :
    (s.startStep ctx step).tx.stepAt o = (s.tx.stepAt o).map fun st =>
      if o = step.executionOrder then { st with status := .inProgress } else st :=
  stepAt_setStatus step s .inProgress o

/-- The steps after a step body. -/
@[simp] lemma stepAt_absorb (r : StepResult) (o : ℤ) :
    (s.absorb step r).tx.stepAt o = (s.tx.stepAt o).map fun st =>
      if o = step.executionOrder then { st with status := r.status, arguments := r.arguments }
      else st :=
  Transaction.stepAt_updateStep _ _ _ _ fun _ => rfl

/-- The steps after a body that returned. -/
@[simp] lemma stepAt_finishStep (r : StepResult) (o : ℤ) :
    (s.finishStep ctx step r).tx.stepAt o = (s.tx.stepAt o).map fun st =>
      if o = step.executionOrder ∧ r.status ≠ .skipped then { st with status := .successful }
      else st := by
  unfold finishStep
  split
  · next h => simp [h]
  · next h => simp [h]

/-- The steps after a failure. -/
@[simp] lemma stepAt_failStep (exc : StepException) (o : ℤ) :
    (s.failStep ctx step exc).tx.stepAt o = (s.tx.stepAt o).map fun st =>
      if o = step.executionOrder then
        { st with status := .failed, exceptions := st.exceptions ++ [exc] }
      else st := by
  simp only [failStep, append_tx, Transaction.stepAt_appendHistory, stepAt_pushException,
    stepAt_setStatus, Option.map_map]
  congr 1
  funext st
  simp only [Function.comp_apply]
  split <;> rfl

/-- The steps after a body that ran out of memory. -/
@[simp] lemma stepAt_interruptStep (o : ℤ) :
    (s.interruptStep ctx step).tx.stepAt o = (s.tx.stepAt o).map fun st =>
      if o = step.executionOrder then { st with status := .failed } else st :=
  stepAt_setStatus step s .failed o

/-- The steps after a screenshot was attached. -/
@[simp] lemma stepAt_attachScreenshot (path : String) (o : ℤ) :
    (s.attachScreenshot ctx step path).tx.stepAt o = (s.tx.stepAt o).map fun st =>
      if o = step.executionOrder then
        { st with exceptions := st.exceptions.dropLast ++
            st.exceptions.getLast?.toList.map (setScreenshot path) }
      else st := by
  unfold attachScreenshot
  split <;> exact Transaction.stepAt_updateStep _ _ _ _ fun _ => rfl

/-- Attaching a screenshot leaves the exceptions as they are, up to the path. -/
lemma map_bare_setScreenshot (path : String) (excs : List StepException) :
    (excs.dropLast ++ excs.getLast?.toList.map (setScreenshot path)).map StepException.bare =
      excs.map StepException.bare := by
  rcases List.eq_nil_or_concat excs with rfl | ⟨l, a, rfl⟩
  · rfl
  · simp

/-! ### Growth -/

lemma grows_append (ev : HistoryEvent) (st : Option Step) : s.tx.Grows (s.append ctx ev st).tx :=
  Transaction.grows_appendHistory ..

lemma grows_setStatus (status : Status) : s.tx.Grows (s.setStatus step status).tx :=
  Transaction.grows_updateStep _ _ _ fun _ => ⟨rfl, List.prefix_refl _⟩

lemma grows_pushException (exc : StepException) : s.tx.Grows (s.pushException step exc).tx :=
  Transaction.grows_updateStep _ _ _ fun st => ⟨rfl, by simp⟩

lemma grows_startStep : s.tx.Grows (s.startStep ctx step).tx :=
  (grows_setStatus step s _).trans (grows_append ctx _ _ _)

lemma grows_absorb (r : StepResult) : s.tx.Grows (s.absorb step r).tx := by
  refine Transaction.Grows.of_map (fun st => if st.executionOrder = step.executionOrder then
    { st with status := r.status, arguments := r.arguments } else st) (fun st => ?_) rfl
    (List.prefix_refl _) rfl rfl rfl rfl
  split <;> exact ⟨rfl, List.prefix_refl _⟩

lemma grows_finishStep (r : StepResult) : s.tx.Grows (s.finishStep ctx step r).tx := by
  unfold finishStep
  split
  · exact grows_append ctx s _ _
  · exact (grows_setStatus step s _).trans (grows_append ctx _ _ _)

lemma grows_failStep (exc : StepException) : s.tx.Grows (s.failStep ctx step exc).tx :=
  ((grows_setStatus step s _).trans (grows_pushException step _ _)).trans (grows_append ctx _ _ _)

lemma grows_interruptStep : s.tx.Grows (s.interruptStep ctx step).tx :=
  (grows_setStatus step s _).trans (grows_append ctx _ _ _)

lemma grows_attachScreenshot (path : String) :
    s.tx.Grows (s.attachScreenshot ctx step path).tx := by
  have h : s.tx.Grows (s.tx.updateStep step.executionOrder fun st =>
      { st with exceptions := st.exceptions.dropLast ++
          st.exceptions.getLast?.toList.map (setScreenshot path) }) :=
    Transaction.grows_updateStep _ _ _ fun st =>
      ⟨rfl, (map_bare_setScreenshot path st.exceptions).symm ▸ List.prefix_refl _⟩
  unfold attachScreenshot
  split
  · exact h
  · exact ⟨h.steps, h.history, h.id, h.identity, h.reference, h.created⟩

lemma grows_skipDownstream (after : Bool) (steps : List Step) :
    s.tx.Grows (s.skipDownstream ctx step after steps).tx := by
  induction steps generalizing after s with
  | nil => exact Transaction.Grows.refl _
  | cons a rest ih =>
    unfold skipDownstream
    split
    · exact ih s true
    · split
      · exact ((grows_setStatus a s _).trans (grows_append ctx _ _ _)).trans (ih _ after)
      · exact ih s after

lemma grows_resetSkippedSteps : s.tx.Grows s.resetSkippedSteps.tx := by
  unfold resetSkippedSteps
  split
  · exact Transaction.Grows.refl _
  · refine Transaction.Grows.of_map _ (fun st => ?_) rfl (List.prefix_refl _) rfl rfl rfl rfl
    split <;> exact ⟨rfl, List.prefix_refl _⟩

lemma grows_resetRetryable : s.tx.Grows s.resetRetryable.tx := by
  refine Transaction.Grows.of_map _ (fun st => ?_) rfl (List.prefix_refl _) rfl rfl rfl rfl
  split <;> exact ⟨rfl, List.prefix_refl _⟩

lemma grows_failValidation : s.tx.Grows (s.failValidation ctx).tx := by
  unfold failValidation
  refine Transaction.Grows.trans ?_ (grows_append ctx _ _ _)
  exact Transaction.Grows.of_fields rfl rfl rfl rfl rfl rfl

lemma grows_scheduleRetry : s.tx.Grows (s.scheduleRetry ctx).tx := by
  unfold scheduleRetry
  refine Transaction.Grows.trans ?_ (grows_append ctx _ _ _)
  exact Transaction.Grows.of_fields rfl rfl rfl rfl rfl rfl

lemma grows_interrupt : s.tx.Grows (s.interrupt ctx).tx := by
  unfold interrupt
  refine Transaction.Grows.trans ?_ (grows_append ctx _ _ _)
  exact Transaction.Grows.of_fields rfl rfl rfl rfl rfl rfl

lemma outcome_steps (tx : Transaction) : (outcome tx).steps = tx.steps := by
  unfold outcome
  split <;> [rfl; split <;> rfl]

lemma outcome_history (tx : Transaction) : (outcome tx).history = tx.history := by
  unfold outcome
  split <;> [rfl; split <;> rfl]

lemma grows_outcome (tx : Transaction) : tx.Grows (outcome tx) := by
  refine Transaction.Grows.of_fields (outcome_steps tx) (outcome_history tx) ?_ ?_ ?_ ?_ <;>
  · unfold outcome
    split <;> [rfl; split <;> rfl]

lemma grows_settle : s.tx.Grows (s.settle ctx).tx := by
  unfold settle
  refine Transaction.Grows.trans ?_ (grows_append ctx _ _ _)
  exact (grows_outcome s.tx).trans (Transaction.Grows.of_fields rfl rfl rfl rfl rfl rfl)

lemma grows_stampStart : s.tx.Grows (s.stampStart ctx).tx := by
  unfold stampStart
  split
  · exact Transaction.Grows.refl _
  · exact Transaction.Grows.of_fields rfl rfl rfl rfl rfl rfl

lemma grows_reopen : s.tx.Grows s.reopen.tx :=
  Transaction.Grows.of_fields rfl rfl rfl rfl rfl rfl

lemma grows_begin : s.tx.Grows (s.begin ctx).tx :=
  (((grows_resetSkippedSteps s).trans (grows_reopen _)).trans (grows_stampStart ctx _)).trans
    (grows_append ctx _ _ _)

/-! ### The durable state, the retry count and the history -/

@[simp] lemma state_startStep : (s.startStep ctx step).tx.state = s.tx.state := rfl

@[simp] lemma state_finishStep (r : StepResult) :
    (s.finishStep ctx step r).tx.state = s.tx.state := by
  unfold finishStep
  split <;> rfl

@[simp] lemma state_failStep (exc : StepException) :
    (s.failStep ctx step exc).tx.state = s.tx.state := rfl

@[simp] lemma state_interruptStep : (s.interruptStep ctx step).tx.state = s.tx.state := rfl

@[simp] lemma state_attachScreenshot (path : String) :
    (s.attachScreenshot ctx step path).tx.state = s.tx.state := by
  unfold attachScreenshot
  split <;> rfl

@[simp] lemma state_skipDownstream (after : Bool) (steps : List Step) :
    (s.skipDownstream ctx step after steps).tx.state = s.tx.state := by
  induction steps generalizing after s with
  | nil => rfl
  | cons a rest ih =>
    unfold skipDownstream
    split_ifs <;> simp [ih, append, setStatus, Transaction.appendHistory, Transaction.updateStep]

@[simp] lemma state_resetRetryable : s.resetRetryable.tx.state = s.tx.state := rfl

@[simp] lemma state_scheduleRetry : (s.scheduleRetry ctx).tx.state = s.tx.state := rfl

@[simp] lemma state_interrupt : (s.interrupt ctx).tx.state = s.tx.state := rfl

@[simp] lemma state_settle : (s.settle ctx).tx.state = s.tx.state := by
  change (outcome s.tx).state = s.tx.state
  unfold outcome
  split <;> [rfl; split <;> rfl]

@[simp] lemma state_begin : (s.begin ctx).tx.state = s.tx.state := by
  have h : s.resetSkippedSteps.tx.state = s.tx.state := by
    unfold resetSkippedSteps
    split <;> rfl
  have h' : ∀ a : EngineState, (a.stampStart ctx).tx.state = a.tx.state := by
    intro a
    unfold stampStart
    split <;> rfl
  exact (h' _).trans h

@[simp] lemma history_finishStep (r : StepResult) : (s.finishStep ctx step r).tx.history =
    s.tx.history ++ [s.tx.historyEntry (if r.status = .skipped then .stepSkipped
      else .stepSucceeded) (some step) (ctx.clock s.ticks)] := by
  unfold finishStep
  split <;> rfl

@[simp] lemma history_attachScreenshot (path : String) :
    (s.attachScreenshot ctx step path).tx.history = s.tx.history := by
  unfold attachScreenshot
  split <;> rfl

end EngineState
