import RpaCore.Effects.Project
import RpaCore.Engine.Results
import RpaCore.Runner.Basic

set_option relaxedAutoImplicit false
set_option autoImplicit false

/-!
# Explicit execution

The code of `execution.py`: one transaction is run by an engine whose checkpoints save it to an
SQLite database, or call a function of the caller, within a resource scope if there is one. A save
that meets a transient lock is tried again. Logging is left out, and so are the configuration, the
credentials and the resources, which only the bodies of the steps see.

## Main definitions

* `ExecuteOp` — the calls of an execution.
* `Execute.executeTransaction` — `execute_transaction`.
* `Landmark`, `landmarks` — what an execution has done: the bodies it has called and the snapshots
  it has saved.

## Main results

* `Engine.wp_body_returns` — what a run that returns has given to its last checkpoint.
* `Execute.run_landmarks` — an execution that stops anywhere has done what a first part of a run of
  the engine does.
-/

/-- The calls of an execution: those of the engine, a save with the wait before it is tried again,
and the ends of the resource scope. -/
inductive ExecuteOp
  | engine (op : EngineOp)
  | save (tx : Transaction)
  | retrySleep (attempt : ℕ)
  | enterScope
  | exitScope (error : Option PyError)

/-- What the calls are answered with. A scope is entered with the `TypeError` of what it yields, if
that is no dictionary; it is left with the truth of what `__exit__` returns. -/
abbrev ExecuteOp.Res : ExecuteOp → Type
  | .engine op => op.Res
  | .save _ => Except PyError Unit
  | .retrySleep _ => Unit
  | .enterScope => Except PyError (Option PyError)
  | .exitScope _ => Except PyError Bool

/-- Code that executes a transaction. -/
abbrev ExecuteM := Proc ExecuteOp ExecuteOp.Res Transaction PyError

/-- The events of an execution. -/
abbrev ExecuteTrace := List (Event ExecuteOp ExecuteOp.Res)

/-- The arguments of `execute_transaction`: the engine with what surrounds its run, and whether
there are a checkpoint function, a database and a resource scope. -/
structure Execute where
  engine : Engine
  clock : ℕ → Datetime
  uuid : ℕ → String
  host : Host
  hasCheckpoint : Bool
  hasTransactionDb : Bool
  hasScope : Bool

namespace Execute

/-- `_save_transaction_with_retries`, `n` attempts being left: the exception that it raises. -/
def saveTransactionWithRetries (tx : Transaction) :
    ℕ → Prog ExecuteOp ExecuteOp.Res (Option PyError)
  | 0 => .pure none
  | n + 1 => .call (.save tx) fun answer =>
    match answer with
    | .ok () => .pure none
    | .error err =>
      if err.isTransientLock && n ≠ 0 then
        .call (.retrySleep (2 - n)) fun _ => saveTransactionWithRetries tx n
      else .pure (some err)

variable (c : Execute)

/-- How the calls of the engine are answered: `resolved_checkpoint` saves the transaction if there
is a database. -/
def answerEngine : (op : EngineOp) → Prog ExecuteOp ExecuteOp.Res op.Res
  | .checkpoint tx =>
    if c.hasTransactionDb then saveTransactionWithRetries tx 3
    else .call (.engine (.checkpoint tx)) .pure
  | .execute st tx => .call (.engine (.execute st tx)) .pure
  | .captureScreenshot directory => .call (.engine (.captureScreenshot directory)) .pure

/-- The context of the run. -/
def context : RunContext := ⟨c.hasCheckpoint || c.hasTransactionDb, c.clock, c.uuid, c.host⟩

/-- The interpreter of the calls of the engine, which keeps nothing. -/
def interpreter (_ : Unit) (op : EngineOp) : Prog ExecuteOp ExecuteOp.Res (op.Res × Unit) :=
  (c.answerEngine op).bind fun answer => .pure (answer, ())

/-- `runner.run(ctx, checkpoint=resolved_checkpoint)`. -/
def runEngine : ExecuteM Unit := fun tx =>
  ((c.engine.run c.context tx).interp c.interpreter ()).bind
    fun ((result, final), _) => .pure (result, final.tx)

/-- The body of the `try` statement. -/
def runInScope (yielded : Option PyError) : ExecuteM Unit :=
  match yielded with
  | some err => throw err
  | none => c.runEngine

/-- The end of the resource scope: an exception of `__exit__` replaces the one in flight, and a
truthy answer suppresses it. -/
def leaveScope : Except PyError Unit → ExecuteM Unit
  | .ok () => do
    let left : Except PyError Bool ← Proc.call (ExecuteOp.exitScope none)
    let _ ← Proc.ofExcept left
    pure ()
  | .error err => do
    let left : Except PyError Bool ← Proc.call (ExecuteOp.exitScope (some err))
    let suppress ← Proc.ofExcept left
    if suppress then pure () else throw err

/-- The run in the resource scope. -/
def runScoped : ExecuteM Unit := do
  let entered : Except PyError (Option PyError) ← Proc.call ExecuteOp.enterScope
  let yielded ← Proc.ofExcept entered
  let outcome ← (c.runInScope yielded).attempt
  leaveScope outcome

/-- **`execute_transaction`.** -/
def executeTransaction : ExecuteM Unit := do
  let tx ← get
  if c.hasCheckpoint && c.hasTransactionDb then
    throw (.valueError "checkpoint and transaction_db_path are mutually exclusive")
  else if c.hasTransactionDb && tx.definitionIdentity.text = "" then
    throw (.definitionIdentity "transaction.definition_identity must be a non-empty str")
  else if c.hasScope then c.runScoped
  else c.runEngine

/-- The run of an execution against an environment. -/
def run (tx : Transaction) (env : ExecuteTrace → (op : ExecuteOp) → op.Res) :
    (Except PyError Unit × Transaction) × ExecuteTrace :=
  (c.executeTransaction.start tx).run env []

end Execute

/-! ## Landmarks -/

/-- What an execution has done: a body that has ended, or a snapshot that was saved. -/
inductive Landmark
  | executed (x : Execution)
  | saved (tx : Transaction)

/-- The landmark of an event of an execution. -/
def landmark : Event ExecuteOp ExecuteOp.Res → Option Landmark
  | ⟨.engine (.execute st tx), r⟩ => some (.executed ⟨st, tx, r.ending⟩)
  | ⟨.save tx, .ok ()⟩ => some (.saved tx)
  | _ => none

/-- What an execution has done, in order. -/
def landmarks (t : ExecuteTrace) : List Landmark := t.filterMap landmark

namespace Engine

/-- The landmark of an event of the engine: a checkpoint that returns has saved its snapshot. -/
def landmark : Event EngineOp EngineOp.Res → Option Landmark
  | ⟨.execute st tx, r⟩ => some (.executed ⟨st, tx, r.ending⟩)
  | ⟨.checkpoint tx, none⟩ => some (.saved tx)
  | _ => none

/-- What a run has done, in order. -/
def landmarks (t : EngineTrace) : List Landmark := t.filterMap landmark

/-- **A run that returns** has given its last state to its last checkpoint, which has returned. -/
theorem wp_body_returns {e : Engine} {ctx : RunContext} {s : EngineState} {t : EngineTrace}
    (hc : ctx.hasCheckpoint = true) :
    (body e ctx).wp recorder
      (fun _ s' t' => (landmarks t').getLast? = some (.saved s'.tx)) (fun _ _ _ => True) s t := by
  have hany : ∀ (p : EngineM Unit) (s : EngineState) (t : EngineTrace),
      p.wp recorder (fun _ _ _ => True) (fun _ _ _ => True) s t := by
    intro p s t
    refine Prog.wp_of_forall (fun _ _ => trivial) ?_ _ _
    rintro ⟨_ | _, _⟩ _ <;> trivial
  refine wp_body (fun _ _ => trivial) fun _ => ?_
  refine Proc.wp_mono (hany (checkpoint ctx) _ t) (fun _ s₁ t₁ _ => ?_) fun _ _ _ _ => trivial
  refine Proc.wp_mono (hany _ s₁ t₁) (fun _ s₂ t₂ _ => ?_) fun err s₂ t₂ _ => ?_
  · rw [wp_checkpoint hc]
    split
    · trivial
    · refine ⟨trivial, fun answer _ => ?_⟩
      cases answer with
      | none => simp [recorder, traceMonitor, landmarks, landmark]
      | some err => trivial
  · refine wp_handleInterrupt (fun _ => trivial) fun _ => ?_
    refine Proc.wp_mono (hany (checkpoint ctx) _ t₂) (fun _ _ _ _ => trivial) fun _ _ _ _ => ?_
    split <;> trivial

end Engine

/-- A list between another one and its extension by one element is one of the two. -/
lemma eq_or_extends {α : Type} {u v w : List α} {a : α} (hu : u <+: w) (hw : w <+: v)
    (hv : u ++ [a] <+: v) : w = u ∨ u ++ [a] <+: w := by
  rcases List.prefix_or_prefix_of_prefix hv hw with hmore | hless
  · exact Or.inr hmore
  · rcases List.prefix_concat_iff.mp hless with rfl | hless
    · exact Or.inr List.prefix_rfl
    · exact Or.inl (hless.eq_of_length_le hu.length_le)

namespace Execute

variable {c : Execute} {env : ExecuteTrace → (op : ExecuteOp) → op.Res} {u w : ExecuteTrace}
  {tx : Transaction}

/-- One attempt at a save: it saves, it raises, or it is to be tried again. -/
lemma run_saveTransactionWithRetries (tx : Transaction) (n : ℕ) (u : ExecuteTrace) :
    (saveTransactionWithRetries tx (n + 1)).run env u = (none, u ++ [⟨.save tx, .ok ()⟩]) ∨
    (∃ err, (saveTransactionWithRetries tx (n + 1)).run env u =
      (some err, u ++ [⟨.save tx, .error err⟩])) ∨
    n ≠ 0 ∧ ∃ err, (saveTransactionWithRetries tx (n + 1)).run env u =
      (saveTransactionWithRetries tx n).run env
        ((u ++ [⟨.save tx, .error err⟩]) ++ [⟨.retrySleep (2 - n), ()⟩]) := by
  rw [saveTransactionWithRetries, Prog.run]
  generalize env u (.save tx) = answer
  cases answer with
  | ok => exact Or.inl rfl
  | error err =>
    right
    cases hagain : err.isTransientLock && decide (n ≠ 0) with
    | false => exact Or.inl ⟨err, by simp only [hagain, Bool.false_eq_true, if_false, Prog.run]⟩
    | true =>
      refine Or.inr ⟨?_, err, by simp only [hagain, if_true, Prog.run]⟩
      simp only [Bool.and_eq_true, decide_eq_true_eq] at hagain
      exact hagain.2

/-- A save that is tried again has saved its snapshot exactly if it returns. -/
lemma landmarks_saveTransactionWithRetries {n : ℕ} (hn : n ≠ 0) :
    landmarks ((saveTransactionWithRetries tx n).run env u).2 = landmarks u ++
      if ((saveTransactionWithRetries tx n).run env u).1 = none then [.saved tx] else [] := by
  induction n generalizing u with
  | zero => exact absurd rfl hn
  | succ n ih =>
    rcases @run_saveTransactionWithRetries env tx n u with h | ⟨err, h⟩ | ⟨hn, err, h⟩
    · rw [h]
      simp [landmarks, landmark]
    · rw [h]
      simp [landmarks, landmark]
    · rw [h, ih hn]
      simp [landmarks, landmark]

/-- Before it comes to its end it has saved nothing. -/
lemma landmarks_saveTransactionWithRetries_cut {n : ℕ}
    (hw : w <+: ((saveTransactionWithRetries tx n).run env u).2) (hu : u <+: w) :
    landmarks w = landmarks u ∨ (((saveTransactionWithRetries tx n).run env u).1 = none ∧
      landmarks w = landmarks u ++ [.saved tx]) := by
  induction n generalizing u with
  | zero => exact Or.inl (congrArg landmarks (hw.eq_of_length_le hu.length_le).symm).symm
  | succ n ih =>
    rcases @run_saveTransactionWithRetries env tx n u with h | ⟨err, h⟩ | ⟨hn, err, h⟩
    · rw [h] at hw ⊢
      rcases eq_or_extends hu hw List.prefix_rfl with rfl | hmore
      · exact Or.inl rfl
      · obtain rfl := hw.eq_of_length_le hmore.length_le
        exact Or.inr ⟨rfl, by simp [landmarks, landmark]⟩
    · rw [h] at hw ⊢
      rcases eq_or_extends hu hw List.prefix_rfl with rfl | hmore
      · exact Or.inl rfl
      · obtain rfl := hw.eq_of_length_le hmore.length_le
        exact Or.inl (by simp [landmarks, landmark])
    · rw [h] at hw ⊢
      have hall := Prog.run_extends env (saveTransactionWithRetries tx n)
        ((u ++ [⟨.save tx, .error err⟩]) ++ [⟨.retrySleep (2 - n), ()⟩])
      rcases eq_or_extends hu hw ((List.prefix_append _ _).trans hall) with rfl | hmore
      · exact Or.inl rfl
      · rcases eq_or_extends hmore hw hall with rfl | hmore
        · exact Or.inl (by simp [landmarks, landmark])
        · refine (ih hw hmore).imp (fun h => h.trans ?_) fun h => ⟨h.1, h.2.trans ?_⟩ <;>
            simp [landmarks, landmark]

/-- The program that answers a call of the engine shows what the call shows. -/
lemma landmarks_interpreter (hdb : c.hasTransactionDb = true) (op : EngineOp) :
    landmarks ((c.interpreter () op).run env u).2 = landmarks u ++
      (Engine.landmark ⟨op, ((c.interpreter () op).run env u).1.1⟩).toList := by
  rw [interpreter, Prog.run_bind]
  cases op with
  | checkpoint tx =>
    have hall := @landmarks_saveTransactionWithRetries env u tx 3 (by decide)
    simp only [answerEngine, hdb, if_true, Prog.run]
    rw [hall]
    cases ((saveTransactionWithRetries tx 3).run env u).1 <;> rfl
  | execute st tx => simp [answerEngine, Prog.run, landmarks, landmark, Engine.landmark]
  | captureScreenshot directory =>
    simp [answerEngine, Prog.run, landmarks, landmark, Engine.landmark]

/-- Before it comes to its end it shows nothing. -/
lemma landmarks_interpreter_cut (hdb : c.hasTransactionDb = true) (op : EngineOp)
    (hw : w <+: ((c.interpreter () op).run env u).2) (hu : u <+: w) :
    landmarks w = landmarks u ∨ landmarks w = landmarks u ++
      (Engine.landmark ⟨op, ((c.interpreter () op).run env u).1.1⟩).toList := by
  rw [interpreter, Prog.run_bind] at hw ⊢
  cases op with
  | checkpoint tx =>
    simp only [answerEngine, hdb, if_true, Prog.run] at hw ⊢
    refine (landmarks_saveTransactionWithRetries_cut hw hu).imp id fun h => ?_
    rw [h.1, h.2]
    rfl
  | execute st tx =>
    simp only [answerEngine, Prog.run] at hw ⊢
    refine (eq_or_extends hu hw List.prefix_rfl).imp (congrArg landmarks) fun hmore => ?_
    obtain rfl := hw.eq_of_length_le hmore.length_le
    simp [landmarks, landmark, Engine.landmark]
  | captureScreenshot directory =>
    simp only [answerEngine, Prog.run] at hw ⊢
    refine (eq_or_extends hu hw List.prefix_rfl).imp (congrArg landmarks) fun hmore => ?_
    obtain rfl := hw.eq_of_length_le hmore.length_le
    simp [landmarks, landmark, Engine.landmark]

/-- The run of the engine behind an execution that has had the events `u` before. -/
def behind (c : Execute) (env : ExecuteTrace → (op : ExecuteOp) → op.Res) (tx : Transaction)
    (u : ExecuteTrace) : (Except PyError Unit × EngineState) × EngineTrace :=
  (c.engine.run c.context tx).run (Prog.project c.interpreter env ((), u)) []

/-- The run of the engine within an execution is one of its own runs. -/
lemma run_runEngine (tx : Transaction) (u : ExecuteTrace) :
    (c.runEngine.start tx).run env u =
      (((c.behind env tx u).1.1, (c.behind env tx u).1.2.tx),
        (Prog.follow c.interpreter env ((), u) (c.behind env tx u).2).2) := by
  have hrun : ((c.engine.run c.context tx).interp c.interpreter ()).run env u =
      (((c.behind env tx u).1, ()),
        (Prog.follow c.interpreter env ((), u) (c.behind env tx u).2).2) :=
    Prog.run_interp (c := ((), u)) (c.engine.run c.context tx) []
  rw [Proc.start, runEngine, Prog.run_bind, hrun]
  rfl

/-- What the engine has done within an execution. -/
lemma landmarks_runEngine (hdb : c.hasTransactionDb = true) :
    landmarks ((c.runEngine.start tx).run env u).2 =
      landmarks u ++ Engine.landmarks (c.behind env tx u).2 := by
  rw [run_runEngine]
  change _ = u.filterMap landmark ++ (c.behind env tx u).2.filterMap Engine.landmark
  exact Prog.follow_seen (c := ((), u)) (fun c' op => landmarks_interpreter hdb op)
    fun a ev b hsplit => Prog.run_res _ _ hsplit

/-- The same, if it stops anywhere. -/
lemma landmarks_runEngine_cut (hdb : c.hasTransactionDb = true)
    (hw : w <+: ((c.runEngine.start tx).run env u).2) (hu : u <+: w) :
    ∃ a, a <+: (c.behind env tx u).2 ∧ landmarks w = landmarks u ++ Engine.landmarks a := by
  rw [run_runEngine] at hw
  change ∃ a : EngineTrace, _ ∧
    w.filterMap landmark = u.filterMap landmark ++ a.filterMap Engine.landmark
  exact Prog.follow_cut
    (fun c' op w hw hu => landmarks_interpreter_cut hdb op hw hu)
    (fun c' op => landmarks_interpreter hdb op)
    (fun a ev b hsplit => Prog.run_res _ _ hsplit) hw hu

/-- The resource scope was left with an exception. -/
def LeftByException (t : ExecuteTrace) : Prop := ∃ ev ∈ t, ∃ err, ev.op = .exitScope (some err)

/-- The end of the resource scope is one call. -/
lemma run_leaveScope (outcome : Except PyError Unit) (tx : Transaction) (u : ExecuteTrace) :
    ∃ result ev, ((leaveScope outcome).start tx).run env u = ((result, tx), u ++ [ev]) ∧
      landmark ev = none ∧ (result = .ok () → outcome = .ok () ∨ LeftByException (u ++ [ev])) := by
  cases outcome with
  | ok value =>
    obtain ⟨result, hresult⟩ : ∃ result, ((leaveScope (.ok value)).start tx).run env u =
        ((result, tx), u ++ [⟨.exitScope none, env u (.exitScope none)⟩]) := by
      change ∃ result, ((Proc.ofExcept (env u (.exitScope none)) >>= fun _ => pure () :
        ExecuteM Unit).start tx).run env _ = _
      generalize env u (.exitScope none) = answer
      cases answer <;> exact ⟨_, rfl⟩
    exact ⟨result, _, hresult, rfl, fun _ => Or.inl rfl⟩
  | error err =>
    obtain ⟨result, hresult⟩ : ∃ result, ((leaveScope (.error err)).start tx).run env u =
        ((result, tx), u ++ [⟨.exitScope (some err), env u (.exitScope (some err))⟩]) := by
      change ∃ result, ((Proc.ofExcept (env u (.exitScope (some err))) >>= fun suppress =>
        if suppress then pure () else throw err : ExecuteM Unit).start tx).run env _ = _
      generalize env u (.exitScope (some err)) = answer
      rcases answer with cleanup | suppress | suppress <;> exact ⟨_, rfl⟩
    exact ⟨result, _, hresult, rfl, fun _ =>
      Or.inr ⟨_, List.mem_append_right _ (List.mem_singleton_self _), err, rfl⟩⟩

/-- What runs in the scope, with the end of the scope. -/
lemma run_attempt_leaveScope (p : ExecuteM Unit) (tx : Transaction) (u : ExecuteTrace) :
    ∃ result ev, ((p.attempt >>= leaveScope).start tx).run env u =
        ((result, ((p.start tx).run env u).1.2), ((p.start tx).run env u).2 ++ [ev]) ∧
      landmark ev = none ∧ (result = .ok () → ((p.start tx).run env u).1.1 = .ok () ∨
        LeftByException (((p.start tx).run env u).2 ++ [ev])) := by
  have hrun : ((p.attempt >>= leaveScope).start tx).run env u =
      ((leaveScope ((p.start tx).run env u).1.1).start ((p.start tx).run env u).1.2).run env
        ((p.start tx).run env u).2 := by
    rw [Proc.start_bind, Prog.run_bind, Proc.start, Proc.attempt, Prog.run_bind]
    rfl
  rw [hrun]
  exact run_leaveScope _ _ _

/-- What an execution comes to: it does nothing that matters, or runs the engine once and returns if
that does, or if the resource scope suppresses an exception. -/
def RunsEngine (c : Execute) (env : ExecuteTrace → (op : ExecuteOp) → op.Res) (tx : Transaction)
    (r : (Except PyError Unit × Transaction) × ExecuteTrace) : Prop :=
  (landmarks r.2 = [] ∧ (r.1.1 = .ok () → LeftByException r.2)) ∨
  ∃ u v, landmarks u = [] ∧ landmarks v = [] ∧
    r.2 = ((c.runEngine.start tx).run env u).2 ++ v ∧ r.1.2 = (c.behind env tx u).1.2.tx ∧
    (r.1.1 = .ok () → (c.behind env tx u).1.1 = .ok () ∨ LeftByException r.2)

/-- **An execution** does nothing that matters, or runs the engine once.

**Proof sketch.** The arguments are checked, and the scope is entered, before the engine runs; after
it the scope is left. -/
theorem runsEngine_run (c : Execute) (env : ExecuteTrace → (op : ExecuteOp) → op.Res)
    (tx : Transaction) : c.RunsEngine env tx (c.run tx env) := by
  have hstart : c.executeTransaction.start tx =
      if c.hasCheckpoint && c.hasTransactionDb then
        Prog.pure (.error (.valueError
          "checkpoint and transaction_db_path are mutually exclusive"), tx)
      else if c.hasTransactionDb && tx.definitionIdentity.text = "" then
        Prog.pure (.error (.definitionIdentity
          "transaction.definition_identity must be a non-empty str"), tx)
      else if c.hasScope then c.runScoped.start tx
      else c.runEngine.start tx := by
    change (if _ then _ else if _ then _ else if _ then _ else _ : ExecuteM Unit) tx = _
    split_ifs <;> rfl
  rw [run, hstart]
  split_ifs
  · exact Or.inl ⟨rfl, fun h => by cases h⟩
  · exact Or.inl ⟨rfl, fun h => by cases h⟩
  · have hscoped : (c.runScoped.start tx).run env [] =
        ((Proc.ofExcept (env [] .enterScope) >>= fun yielded =>
          (c.runInScope yielded).attempt >>= leaveScope : ExecuteM Unit).start tx).run env
            [⟨.enterScope, env [] .enterScope⟩] := rfl
    rw [hscoped]
    generalize env [] .enterScope = answer
    cases answer with
    | error err => exact Or.inl ⟨rfl, fun h => by cases h⟩
    | ok yielded =>
      change c.RunsEngine env tx
        ((((c.runInScope yielded).attempt >>= leaveScope).start tx).run env _)
      obtain ⟨result, ev, hrun, hev, hok⟩ := @run_attempt_leaveScope env (c.runInScope yielded) tx
        [⟨.enterScope, (.ok yielded : Except PyError (Option PyError))⟩]
      rw [hrun]
      cases yielded with
      | some err =>
        refine Or.inl ⟨?_, fun h => (hok h).resolve_left fun herr => by cases herr⟩
        change [⟨.enterScope, .ok (some err)⟩, ev].filterMap landmark = []
        rw [List.filterMap_cons_none rfl, List.filterMap_cons_none hev, List.filterMap_nil]
      | none =>
        refine Or.inr ⟨_, [ev], rfl, by simp [landmarks, hev], rfl, ?_,
          fun h => (hok h).imp_left ?_⟩
        · change ((c.runEngine.start tx).run env _).1.2 = _
          rw [run_runEngine]
        · change ((c.runEngine.start tx).run env _).1.1 = _ → _
          rw [run_runEngine]
          exact id
  · refine Or.inr ⟨[], [], rfl, rfl, (List.append_nil _).symm, ?_, fun h => Or.inl ?_⟩
    · rw [run_runEngine]
    · rw [run_runEngine] at h
      exact h

/-- **The run behind an execution that stops anywhere**: what it has done up to there is what a
first part of a run of the engine does.

**Proof sketch.** The calls of the engine are answered by programs that show what the calls show,
and nothing before they have come to their end. -/
theorem run_landmarks (hdb : c.hasTransactionDb = true) (hw : w <+: (c.run tx env).2) :
    ∃ (env' : EngineTrace → (op : EngineOp) → op.Res) (a : EngineTrace),
      a <+: ((c.engine.run c.context tx).run env' []).2 ∧ landmarks w = Engine.landmarks a := by
  have hnone : ∀ {w u : ExecuteTrace}, w <+: u → landmarks u = [] → landmarks w = [] :=
    fun hwu hu => List.prefix_nil.mp (hu ▸ hwu.filterMap landmark)
  rcases c.runsEngine_run env tx with ⟨hempty, -⟩ | ⟨u, v, hu, hv, hrun, -⟩
  · exact ⟨Prog.project c.interpreter env ((), []), [], List.nil_prefix, hnone hw hempty⟩
  · have hrunEngine := Prog.run_extends env (c.runEngine.start tx) u
    rw [hrun] at hw
    rcases List.prefix_or_prefix_of_prefix hw (List.prefix_append _ v) with hwithin | hbeyond
    · rcases List.prefix_or_prefix_of_prefix hwithin hrunEngine with hbefore | hafter
      · exact ⟨Prog.project c.interpreter env ((), []), [], List.nil_prefix, hnone hbefore hu⟩
      · obtain ⟨a, ha, hsame⟩ := landmarks_runEngine_cut hdb hwithin hafter
        exact ⟨_, a, ha, by rw [hsame, hu, List.nil_append]⟩
    · -- the engine has returned
      obtain ⟨a, ha, hsame⟩ := landmarks_runEngine_cut hdb List.prefix_rfl hrunEngine
      obtain ⟨v', rfl⟩ := hbeyond
      rw [List.prefix_append_right_inj] at hw
      refine ⟨_, a, ha, ?_⟩
      rw [landmarks, List.filterMap_append]
      change landmarks _ ++ landmarks v' = _
      rw [hsame, hu, List.nil_append, hnone hw hv, List.append_nil]

end Execute
