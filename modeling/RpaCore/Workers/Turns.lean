import RpaCore.Engine.Saves
import RpaCore.Workers.Basic

set_option relaxedAutoImplicit false
set_option autoImplicit false

/-!
# What a runner saves

A turn of a runner begins when it claims an item. What the runner knows about the databases is its
claim, the transaction that the item is bound to, and the snapshot of it that the turn loaded first
or saved last. During a turn a runner sends the first save of an unbound item, or saves of the
transaction that the item is bound to, over the snapshot that the turn knows; it sends none after a
successful one, and completes the item only over a successful snapshot.

## Main definitions

* `Turn` — what a runner knows during a turn.
* `Turn.MaySave`, `Turn.Earned` — what it may save, and when it may complete its item.
* `turns` — the monitor of `run_queue_loop` that follows its turns.

## Main results

* `Runner.wp_runEngine_turns` — the checkpoints of the engine are saves of the turn.
* `Runner.wp_execute_turns` — an item that is to be completed has earned it.
* `QueueLoop.wp_runQueueLoop_turns` — what the loop saves and completes.
-/

/-! ## Turns -/

/-- What a runner knows during a turn: its claim, the transaction that the item is bound to, if
any, the snapshot that it loaded first or saved last, with its revision, and whether the callback
has left it with its item. -/
structure Turn where
  itemId : String
  claimedBy : String
  claimToken : String
  transactionId : String
  last : Option (Transaction × ℤ)
  kept : Bool

namespace Turn

/-- A turn begins with the item that was claimed. -/
def ofItem (item : QueueItem) : Turn :=
  ⟨item.id, item.claimedBy, item.claimToken, item.transactionId, none, true⟩

/-- The claim of the turn is the one of an item. -/
def Claims (turn : Turn) (item : QueueItem) : Prop :=
  item.id = turn.itemId ∧ item.claimedBy = turn.claimedBy ∧ item.claimToken = turn.claimToken

/-- A transaction was loaded: only the first load of the bound one counts. -/
def load (id : String) (tx : Transaction) (revision : ℤ) (turn : Turn) : Turn :=
  if turn.last = none ∧ id = turn.transactionId ∧ id ≠ "" then
    { turn with last := some (tx, revision) }
  else turn

/-- A transaction was saved. -/
def save (tx : Transaction) (revision : ℤ) (turn : Turn) : Turn :=
  { turn with transactionId := tx.id, last := some (tx, revision) }

/-- The callback was given an item, and has left another one. -/
def callback (item left : QueueItem) (turn : Turn) : Turn :=
  { turn with kept := turn.kept && left.id = item.id }

/-- A save that a turn may send: the first one of a pending transaction for an unbound item, or one
of the bound transaction over the snapshot that the turn knows, which is not successful, and whose
successful steps it keeps. A successful transaction is saved with its steps complete. -/
structure MaySave (turn : Turn) (tx : Transaction) (expectedRevision : ℤ) (initial : Bool) :
    Prop where
  first : initial = true → turn.transactionId = "" ∧ expectedRevision = 0 ∧ tx.status = .pending
  later : initial = false → turn.transactionId = tx.id ∧ ∃ snapshot,
    turn.last = some (snapshot, expectedRevision) ∧ snapshot.id = tx.id ∧
      snapshot.status ≠ .successful ∧ snapshot.KeepsSuccesses tx
  complete : tx.status = .successful → ∀ st ∈ tx.steps, st.isComplete = true

/-- A step that a turn may execute: it is not successful in the snapshot that the turn knows. -/
def MayExecute (turn : Turn) (step : Step) (tx : Transaction) : Prop :=
  ∃ snapshot revision, turn.last = some (snapshot, revision) ∧ snapshot.id = tx.id ∧
    ¬ snapshot.Succeeds step.key

/-- The turn has earned the completion of its item: the snapshot that it knows is successful. -/
def Earned (turn : Turn) : Prop :=
  ∃ snapshot revision, turn.last = some (snapshot, revision) ∧
    snapshot.id = turn.transactionId ∧ snapshot.status = .successful

end Turn

/-! ## What a resume keeps -/

namespace Transaction

/-- What a reset leaves and sets. -/
lemma reset_pending (tx : Transaction) (steps : List Step) (now : Datetime) :
    (tx.reset steps now).id = tx.id ∧ (tx.reset steps now).status = .pending := by
  unfold reset
  split <;> exact ⟨rfl, rfl⟩

/-- What a resume makes of a loaded snapshot: a successful one stays as it is, another one keeps
its successful steps. -/
lemma resumed_follows {tx tx' : Transaction} {steps : List Step} {retryBusinessFailures : Bool}
    {definitionIdentity : Option String} {now : Datetime}
    (h : tx.prepareResumed steps retryBusinessFailures definitionIdentity now = .ok tx') :
    tx'.id = tx.id ∧ (tx'.status = .successful → tx.status = .successful) ∧
      (tx'.status ≠ .successful → tx.status ≠ .successful ∧ tx.KeepsSuccesses tx') := by
  rcases prepareResumed_ok h with ⟨hstatus, rfl⟩ | ⟨hstatus, -, rfl⟩
  · exact ⟨rfl, fun h => h, fun h => absurd hstatus h⟩
  · obtain ⟨hid, hpending⟩ :=
      tx.reset_pending (tx.orderedSteps.map (tx.restored retryBusinessFailures)) now
    refine ⟨hid, fun h => absurd (hpending.symm.trans h) (by decide), fun _ => ⟨hstatus, ?_⟩⟩
    rintro key ⟨st, hst, rfl, hsuccessful⟩
    refine ⟨tx.restored retryBusinessFailures st, ?_, rfl, ?_⟩
    · rw [steps_reset]
      exact List.mem_map_of_mem (mem_orderedSteps.mpr hst)
    · simp [restored, resumedStatus, resumedStepStatus, hsuccessful]

end Transaction

/-! ## The monitor -/

/-- The monitor that follows the turns of a loop: what may be saved, executed and completed. -/
def turns (hasTransactionDb : Bool) : Monitor LoopOp LoopOp.Res (Option Turn) where
  pre g
    | .run (.item (.save item tx expectedRevision initial)) =>
      ∃ turn, g = some turn ∧ turn.Claims item ∧ turn.MaySave tx expectedRevision initial
    | .run (.item (.complete item)) => hasTransactionDb = true →
      ∃ turn, g = some turn ∧ turn.Earned ∧ (turn.kept = true → item.id = turn.itemId)
    | .run (.item (.engine (.execute step tx))) => hasTransactionDb = true →
      ∃ turn, g = some turn ∧ turn.MayExecute step tx
    | _ => True
  admits _
    | .run (.item (.load id)), .ok (tx, _) => tx.id = id
    | _, _ => True
  next g
    | .nextItem _, .ok (some item) => some (.ofItem item)
    | .nextItem _, _ => none
    | .run (.item (.load id)), .ok (tx, revision) => g.map (Turn.load id tx revision)
    | .run (.item (.save _ tx _ _)), .ok revision => g.map (Turn.save tx revision)
    | .run (.post (.afterItem item _ _)), (_, left) => g.map (Turn.callback item left)
    | _, _ => g

/-- The turns as the processing of an item sees them. -/
abbrev itemTurns (hasTransactionDb : Bool) : Monitor ItemOp ItemOp.Res (Option Turn) :=
  ((turns hasTransactionDb).pull LoopOp.run).pull RunnerOp.item

/-- The turns as the post-processing sees them. -/
abbrev postTurns (hasTransactionDb : Bool) : Monitor PostOp PostOp.Res (Option Turn) :=
  ((turns hasTransactionDb).pull LoopOp.run).pull RunnerOp.post

/-- The item is processed in a turn that has just begun. -/
def Started (s : ItemState) (g : Option Turn) : Prop :=
  ∃ turn, g = some turn ∧ turn.Claims s.item ∧ turn.transactionId = s.item.transactionId ∧
    turn.last = none

/-- The item is executed on a transaction: the turn knows one of the snapshots, at the revision of
the checkpoint. -/
def Executing (id : String) (shown : List Transaction) (s : ItemState) (g : Option Turn) : Prop :=
  ∃ turn snapshot, g = some turn ∧ turn.Claims s.item ∧ turn.transactionId = id ∧
    turn.last = some (snapshot, s.revision) ∧ snapshot.id = id ∧ snapshot ∈ shown

/-- An item that is to be completed has earned it. -/
def Deserved (intended : Bool) (s : ItemState) (g : Option Turn) : Prop :=
  intended = true → ∃ turn, g = some turn ∧ turn.Earned ∧
    (turn.kept = true → s.item.id = turn.itemId)

/-- More snapshots do not matter. -/
lemma Executing.mono {id : String} {shown shown' : List Transaction} {s : ItemState}
    {g : Option Turn} (h : Executing id shown s g) (hshown : ∀ tx ∈ shown, tx ∈ shown') :
    Executing id shown' s g := by
  obtain ⟨turn, snapshot, rfl, hclaims, hid, hlast, hsnapshot, hmem⟩ := h
  exact ⟨turn, snapshot, rfl, hclaims, hid, hlast, hsnapshot, hshown snapshot hmem⟩

namespace Runner

open Proc

variable {r : Runner} {s : ItemState} {g : Option Turn} {id : String} {shown : List Transaction}
  {b : Bool}

/-! ## Saves -/

/-- A call is repeated after a transient lock error, which changes nothing; in the end it has
returned, or has raised an error. -/
lemma wp_lockRetries_turns {α : Type} {P : Except PyError α → Option Turn → Prop}
    {act exhausted : ItemM (Except PyError α)} (n : ℕ)
    (hact : act.wp (itemTurns b) (fun answer s' g' => s' = s ∧ P answer g' ∧
      ∀ err, answer = .error err → g' = g) (fun _ s' g' => s' = s ∧ g' = g) s g) :
    (lockRetries act exhausted (n + 1)).wp (itemTurns b)
      (fun answer s' g' => s' = s ∧ P answer g') (fun _ s' g' => s' = s ∧ g' = g) s g := by
  induction n with
  | zero =>
    simp only [lockRetries, Proc.wp_bind]
    refine Proc.wp_mono hact ?_ fun _ _ _ h => h
    rintro answer s' g' ⟨rfl, hP, herror⟩
    split
    · exact ⟨rfl, hP⟩
    · next err =>
      rw [if_neg (by simp)]
      split
      · exact ⟨rfl, hP⟩
      · exact ⟨rfl, herror err rfl⟩
  | succ n ih =>
    unfold lockRetries
    rw [Proc.wp_bind]
    refine Proc.wp_mono hact ?_ fun _ _ _ h => h
    rintro answer s' g' ⟨rfl, hP, herror⟩
    split
    · exact ⟨rfl, hP⟩
    · next err =>
      obtain rfl := herror err rfl
      split
      · rw [Proc.wp_bind]
        exact ⟨trivial, fun _ _ => ih⟩
      · split
        · exact ⟨rfl, hP⟩
        · exact ⟨rfl, rfl⟩

/-- What the turn knows after a save was answered. -/
def saved (tx : Transaction) (g : Option Turn) : Except PyError ℤ → Option Turn
  | .ok revision => g.map (Turn.save tx revision)
  | .error _ => g

/-- A save that the turn may send. -/
lemma wp_save_turns {turn : Turn} {tx : Transaction} {expectedRevision : ℤ} {initial : Bool}
    (hclaims : turn.Claims s.item) (hmay : turn.MaySave tx expectedRevision initial) :
    (saveQueueTransactionWithRetries tx expectedRevision initial).wp (itemTurns b)
      (fun answer s' g' => s' = s ∧ g' = saved tx (some turn) answer)
      (fun _ s' g' => s' = s ∧ g' = some turn) s (some turn) := by
  simp only [saveQueueTransactionWithRetries, Proc.wp_bind, Proc.wp_get]
  refine wp_lockRetries_turns 2 ⟨⟨turn, rfl, hclaims, hmay⟩, fun answer _ => ?_⟩
  cases answer with
  | ok revision => exact ⟨rfl, rfl, fun _ h => by cases h⟩
  | error err => exact ⟨rfl, rfl, fun _ _ => rfl⟩

/-- A look at the heartbeat. -/
lemma wp_raiseIfFailed_turns :
    raiseIfFailed.wp (itemTurns b) (fun _ s' g' => s' = s ∧ g' = g)
      (fun _ s' g' => s' = s ∧ g' = g) s g := by
  simp only [raiseIfFailed, Proc.wp_bind, Proc.wp_call]
  refine ⟨trivial, fun error _ => ?_⟩
  split
  · exact ⟨rfl, rfl⟩
  · exact ⟨rfl, rfl⟩

/-- A look at the databases after a failed checkpoint: the turn has loaded or saved before. -/
lemma wp_checkpointFailure_turns {tx : Transaction} (h : Executing id shown s g) :
    (checkpointFailureAllowsQueueRetry tx).wp (itemTurns b)
      (fun _ s' g' => Executing id shown s' g') (fun _ s' g' => Executing id shown s' g') s g := by
  obtain ⟨turn, snapshot, rfl, hclaims, hid, hlast, hsnapshot, hmem⟩ := h
  simp only [checkpointFailureAllowsQueueRetry, Proc.wp_bind, Proc.wp_call]
  refine ⟨trivial, fun loaded _ => ?_⟩
  cases loaded with
  | error err =>
    have hsame : Executing id shown s (some turn) :=
      ⟨turn, snapshot, rfl, hclaims, hid, hlast, hsnapshot, hmem⟩
    exact Proc.wp_ite (fun _ => hsame) fun _ => hsame
  | ok loaded =>
    obtain ⟨durable, revision⟩ := loaded
    have hload : turn.load tx.id durable revision = turn := by simp [Turn.load, hlast]
    have hsame : Executing id shown s (some (turn.load tx.id durable revision)) := by
      rw [hload]
      exact ⟨turn, snapshot, rfl, hclaims, hid, hlast, hsnapshot, hmem⟩
    exact Proc.wp_ite (fun _ => hsame) fun _ => hsame

/-! ## Checkpoints -/

/-- What the turn may save at a checkpoint of the engine. -/
lemma maySave_checkpoint {turn : Turn} {snapshot tx : Transaction} (htx : tx.id = id)
    (hid : turn.transactionId = id) (hlast : turn.last = some (snapshot, s.revision))
    (hsnapshot : snapshot.id = id) (hmem : snapshot ∈ shown)
    (hshown : ∀ snapshot ∈ shown, snapshot.status ≠ .successful ∧ snapshot.KeepsSuccesses tx)
    (hcomplete : tx.status = .successful → ∀ st ∈ tx.steps, st.isComplete = true) :
    turn.MaySave tx s.revision false where
  first h := by cases h
  later _ := ⟨hid.trans htx.symm, snapshot, hlast, hsnapshot.trans htx.symm, hshown snapshot hmem⟩
  complete := hcomplete

/-- A checkpoint with a transaction database: the turn knows the snapshot that was saved, or one
from before if the checkpoint raises. -/
lemma wp_strictCheckpoint_turns {tx : Transaction} (h : Executing id shown s g)
    (htx : tx.id = id)
    (hshown : ∀ snapshot ∈ shown, snapshot.status ≠ .successful ∧ snapshot.KeepsSuccesses tx)
    (hcomplete : tx.status = .successful → ∀ st ∈ tx.steps, st.isComplete = true) :
    (strictTransactionCheckpoint tx).wp (itemTurns b) (fun _ s' g' => Executing id [tx] s' g')
      (fun _ s' g' => Executing id (tx :: shown) s' g') s g := by
  have hold : Executing id (tx :: shown) s g := h.mono fun _ hmem => List.mem_cons_of_mem _ hmem
  obtain ⟨turn, snapshot, rfl, hclaims, hid, hlast, hsnapshot, hmem⟩ := h
  simp only [strictTransactionCheckpoint, Proc.wp_bind, Proc.wp_get]
  refine Proc.wp_mono (wp_save_turns hclaims
    (maySave_checkpoint htx hid hlast hsnapshot hmem hshown hcomplete)) ?_ ?_
  · rintro answer s' g' ⟨rfl, rfl⟩
    split
    · exact ⟨turn.save tx _, tx, rfl, hclaims, htx, rfl, htx, List.mem_singleton_self tx⟩
    · exact hold
    · have hcounted : Executing id (tx :: shown) (countPersistenceError s') (some turn) := hold
      rw [Proc.wp_bind, Proc.wp_modify]
      refine Proc.wp_ite (fun _ => hcounted) fun _ => ?_
      rw [Proc.wp_bind]
      exact Proc.wp_mono (wp_checkpointFailure_turns hcounted) (fun _ _ _ h => h) fun _ _ _ h => h
  · rintro err s' g' ⟨rfl, rfl⟩
    exact hold

/-- A checkpoint of the engine with a transaction database. -/
lemma wp_leaseCheckedCheckpoint_turns {tx : Transaction} (hdb : r.hasTransactionDb = true)
    (h : Executing id shown s g) (htx : tx.id = id)
    (hshown : ∀ snapshot ∈ shown, snapshot.status ≠ .successful ∧ snapshot.KeepsSuccesses tx)
    (hcomplete : tx.status = .successful → ∀ st ∈ tx.steps, st.isComplete = true) :
    (r.leaseCheckedCheckpoint tx).wp (itemTurns b) (fun _ s' g' => Executing id [tx] s' g')
      (fun _ s' g' => Executing id (tx :: shown) s' g') s g := by
  have hold : ∀ (err : PyError) (s' : ItemState) (g' : Option Turn), s' = s ∧ g' = g →
      Executing id (tx :: shown) s' g' := by
    rintro _ _ _ ⟨rfl, rfl⟩
    exact h.mono fun _ hmem => List.mem_cons_of_mem _ hmem
  unfold leaseCheckedCheckpoint
  rw [Proc.wp_bind]
  refine Proc.wp_mono wp_raiseIfFailed_turns ?_ hold
  rintro _ _ _ ⟨rfl, rfl⟩
  refine Proc.wp_ite (fun _ => ?_) fun hoff => absurd hdb hoff
  rw [Proc.wp_bind]
  refine Proc.wp_mono wp_raiseIfFailed_turns ?_ hold
  rintro _ _ _ ⟨rfl, rfl⟩
  rw [Proc.wp_bind]
  refine Proc.wp_mono (wp_strictCheckpoint_turns h htx hshown hcomplete) (fun _ s₁ g₁ h₁ => ?_)
    fun _ _ _ h => h
  refine Proc.wp_mono wp_raiseIfFailed_turns ?_ ?_
  · rintro _ _ _ ⟨rfl, rfl⟩
    exact h₁
  · rintro _ _ _ ⟨rfl, rfl⟩
    exact h₁.mono fun _ hmem => List.mem_singleton.mp hmem ▸ List.mem_cons_self

/-- A checkpoint of the engine without a transaction database sends no save. -/
lemma wp_leaseOnlyCheckpoint_turns {tx : Transaction} (hdb : r.hasTransactionDb = false) :
    (r.leaseCheckedCheckpoint tx).wp (itemTurns b) (fun _ _ _ => True) (fun _ _ _ => True) s g := by
  unfold leaseCheckedCheckpoint
  rw [Proc.wp_bind, hdb]
  exact Proc.wp_mono wp_raiseIfFailed_turns (fun _ _ _ _ => trivial) fun _ _ _ _ => trivial

/-! ## The run of the engine -/

/-- **The checkpoints of the engine are saves of the turn.** A run that returns leaves the snapshot
that the turn knows.

**Proof sketch.** The engine shows its checkpoints one snapshot after the other
(`Engine.wp_body_saves`); the runner answers each of them by a save. -/
theorem wp_runEngine_turns {tx snapshot : Transaction} (hdb : r.hasTransactionDb = true)
    (h : Executing tx.id [snapshot] s g) (hstatus : snapshot.status ≠ .successful)
    (hkeeps : snapshot.KeepsSuccesses tx) :
    (r.runEngine tx).wp (itemTurns b)
      (fun _ s' g' => ∃ final, s'.transaction = some final ∧ Executing tx.id [final] s' g')
      (fun _ _ _ => True) s g := by
  have hanswer : ∀ (shown : List Transaction) (s₁ : ItemState) (g₁ : Option Turn) (op : EngineOp),
      Executing tx.id shown s₁ g₁ → (Engine.saves tx.id).pre shown op →
      (r.answerEngine s₁ op).wp (itemTurns b) (fun a g₂ =>
        (Engine.saves tx.id).admits shown op a.1 ∧
          Executing tx.id ((Engine.saves tx.id).next shown op a.1) a.2 g₂) g₁ := by
    intro shown s₁ g₁ op h₁ hpre
    cases op with
    | checkpoint tx' =>
      obtain ⟨htx, hshown, hcomplete⟩ := hpre
      unfold answerEngine
      rw [Prog.wp_bind]
      refine Prog.wp_mono (wp_leaseCheckedCheckpoint_turns hdb h₁ htx hshown hcomplete) ?_
      rintro ⟨err | _, s₂⟩ g₂ h₂
      · exact ⟨trivial, h₂⟩
      · exact ⟨trivial, h₂⟩
    | execute st tx' =>
      obtain ⟨htx, hfresh⟩ := hpre
      refine ⟨fun _ => ?_, fun _ _ => ⟨trivial, h₁⟩⟩
      obtain ⟨turn, known, rfl, -, -, hlast, hknown, hmem⟩ := h₁
      exact ⟨turn, rfl, known, s₁.revision, hlast, hknown.trans htx.symm, hfresh known hmem⟩
    | captureScreenshot directory => exact ⟨trivial, fun _ _ => ⟨trivial, h₁⟩⟩
  have hbody : (Engine.body r.engine ⟨true, r.clock, r.uuid, r.host⟩).wp (Engine.saves tx.id) _ _
      ⟨tx, 0⟩ [snapshot] :=
    Engine.wp_body_saves rfl (by simpa using ⟨hstatus, hkeeps⟩)
  have hrun := Prog.wp_interp hanswer h hbody
  unfold runEngine Proc.wp Proc.start
  rw [Prog.wp_bind]
  refine Prog.wp_mono hrun ?_
  rintro ⟨⟨err | _, final⟩, s₁⟩ g₁ ⟨shown, h₁, hpost⟩
  · trivial
  · obtain rfl : shown = [final.tx] := hpost
    exact ⟨final.tx, rfl, h₁⟩

/-- Without a transaction database the engine sends no save. -/
lemma wp_runEngine_unsaved {tx : Transaction} (hdb : r.hasTransactionDb = false) :
    (r.runEngine tx).wp (itemTurns false) (fun _ _ _ => True) (fun _ _ _ => True) s g := by
  have hanswer : ∀ (_ : Unit) (s₁ : ItemState) (g₁ : Option Turn) (op : EngineOp), True → True →
      (r.answerEngine s₁ op).wp (itemTurns false) (fun _ _ => True ∧ True) g₁ := by
    intro _ s₁ g₁ op _ _
    cases op with
    | checkpoint tx' =>
      unfold answerEngine
      rw [Prog.wp_bind]
      refine Prog.wp_mono (wp_leaseOnlyCheckpoint_turns hdb) ?_
      rintro ⟨err | _, s₂⟩ g₂ -
      · exact ⟨trivial, trivial⟩
      · exact ⟨trivial, trivial⟩
    | execute st tx' => exact ⟨fun h => absurd h (by decide), fun _ _ => ⟨trivial, trivial⟩⟩
    | captureScreenshot directory => exact ⟨trivial, fun _ _ => ⟨trivial, trivial⟩⟩
  unfold runEngine Proc.wp Proc.start
  rw [Prog.wp_bind]
  refine Prog.wp_mono (Prog.wp_interp (M := sendsOnly fun _ => True)
    (I := fun (_ : Unit) (_ : ItemState) (_ : Option Turn) => True) hanswer (g := ()) (s := s)
    trivial (Prog.wp_true (r.engine.run ⟨true, r.clock, r.uuid, r.host⟩ tx) ())) ?_
  rintro ⟨⟨err | _, final⟩, s₁⟩ g₁ -
  · trivial
  · trivial

/-! ## The transaction of an item -/

/-- The transaction that an item is executed with: the turn knows the snapshot that it continues. -/
def Fetched (found : Transaction × ℤ) (s : ItemState) (g : Option Turn) : Prop :=
  ∃ snapshot, Executing found.1.id [snapshot] { s with revision := found.2 } g ∧
    (found.1.status = .successful → snapshot.status = .successful) ∧
    (found.1.status ≠ .successful →
      snapshot.status ≠ .successful ∧ snapshot.KeepsSuccesses found.1)

/-- A transaction is built. -/
lemma wp_buildSeeded_turns :
    buildSeeded.wp (itemTurns b) (fun _ s' g' => s' = s ∧ g' = g) (fun _ _ _ => True) s g := by
  simp only [buildSeeded, Proc.wp_bind, Proc.wp_get, Proc.wp_call, Proc.wp_ofExcept]
  refine ⟨trivial, fun built _ => ?_⟩
  split
  · split
    · split
      · exact ⟨rfl, rfl⟩
      · trivial
    · trivial
  · trivial

/-- A bound transaction is resumed over the snapshot that was loaded. -/
lemma wp_resumeBound_turns (h : Started s g) (hne : s.item.transactionId ≠ "") :
    r.resumeBound.wp (itemTurns b) Fetched (fun _ _ _ => True) s g := by
  obtain ⟨turn, rfl, hclaims, hbound, hlast⟩ := h
  simp only [resumeBound, Proc.wp_bind, Proc.wp_get, Proc.wp_call, Proc.wp_ofExcept]
  refine ⟨trivial, fun built _ => ?_⟩
  split
  · refine ⟨trivial, fun loaded hloaded => ?_⟩
    cases loaded with
    | error err => trivial
    | ok loaded =>
      obtain ⟨tx, revision⟩ := loaded
      have hid : tx.id = s.item.transactionId := hloaded
      dsimp only
      refine ⟨trivial, fun now _ => ?_⟩
      split
      · next resumed hresumed =>
        obtain ⟨hid', hsuccessful, hunsuccessful⟩ := Transaction.resumed_follows hresumed
        have hload : turn.load s.item.transactionId tx revision =
            { turn with last := some (tx, revision) } := by
          rw [Turn.load, if_pos ⟨hlast, hbound.symm, hne⟩]
        refine ⟨tx, ⟨_, tx, rfl, ?_, ?_, ?_, hid'.symm, List.mem_singleton_self tx⟩, hsuccessful,
          hunsuccessful⟩
        · rw [hload]
          exact hclaims
        · rw [hload, hid', hid]
          exact hbound
        · rw [hload]
      · trivial
  · trivial

/-- The first save of a pending transaction binds the item. -/
lemma wp_saveInitial_turns {tx : Transaction} (h : Started s g)
    (hunbound : s.item.transactionId = "") (hpending : tx.status = .pending) :
    (saveInitial tx).wp (itemTurns b) (fun revision => Fetched (tx, revision)) (fun _ _ _ => True)
      s g := by
  obtain ⟨turn, rfl, hclaims, hbound, hlast⟩ := h
  have hmay : turn.MaySave tx 0 true := by
    refine ⟨fun _ => ⟨hbound.trans hunbound, rfl, hpending⟩, fun h => absurd h (by decide), ?_⟩
    exact fun h => absurd (hpending.symm.trans h) (by decide)
  simp only [saveInitial, Proc.wp_bind]
  refine Proc.wp_mono (wp_save_turns hclaims hmay) ?_ fun _ _ _ _ => trivial
  rintro answer s' g' ⟨rfl, rfl⟩
  split
  · exact ⟨tx, ⟨turn.save tx _, tx, rfl, hclaims, rfl, rfl, rfl, List.mem_singleton_self tx⟩,
      fun h => h, fun h => ⟨h, .refl tx⟩⟩
  · trivial
  · trivial

/-- A transaction that is saved first is pending. -/
lemma pending_of_validateInitial {tx : Transaction}
    (h : validateInitialQueueTransaction tx = .ok ()) : tx.status = .pending := by
  unfold validateInitialQueueTransaction at h
  split_ifs at h with hidentity hstatus
  exact not_not.mp hstatus

/-- **The transaction of an item**: the turn knows the snapshot that it continues. -/
lemma wp_transactionForQueueItem_turns (hdb : r.hasTransactionDb = true) (h : Started s g) :
    r.transactionForQueueItem.wp (itemTurns b) Fetched (fun _ _ _ => True) s g := by
  simp only [transactionForQueueItem, Proc.wp_bind, Proc.wp_get]
  refine Proc.wp_ite (fun hoff => by simp [hdb] at hoff) fun _ => ?_
  refine Proc.wp_ite (fun hne => ?_) fun hunbound => ?_
  · rw [Proc.wp_tryCatch]
    refine Proc.wp_mono (wp_resumeBound_turns h hne) (fun _ _ _ h => h) fun err _ _ _ => ?_
    exact Proc.wp_ite (fun _ => trivial) fun _ => trivial
  · rw [Proc.wp_bind]
    refine Proc.wp_mono wp_buildSeeded_turns ?_ fun _ _ _ _ => trivial
    rintro tx _ _ ⟨rfl, rfl⟩
    rw [Proc.wp_bind, Proc.wp_ofExcept]
    split
    · next hinitial =>
      rw [Proc.wp_bind]
      refine Proc.wp_mono (wp_saveInitial_turns h (not_not.mp hunbound)
        (pending_of_validateInitial hinitial)) (fun _ _ _ h => h) fun _ _ _ _ => trivial
    · trivial

/-- Without a transaction database the item is seeded. -/
lemma wp_transactionForQueueItem_unsaved (hdb : r.hasTransactionDb = false) :
    r.transactionForQueueItem.wp (itemTurns b) (fun _ _ _ => True) (fun _ _ _ => True) s g := by
  simp only [transactionForQueueItem, Proc.wp_bind, Proc.wp_get]
  refine Proc.wp_ite (fun _ => ?_) fun hon => by simp [hdb] at hon
  rw [Proc.wp_bind]
  exact Proc.wp_mono wp_buildSeeded_turns (fun _ _ _ _ => trivial) fun _ _ _ _ => trivial

/-! ## The execution of an item -/

/-- The transaction is left for the end of the execution: if it is successful, the completion of
the item is earned. -/
def Ended (s : ItemState) (g : Option Turn) : Prop :=
  ∃ tx, s.transaction = some tx ∧ Deserved (tx.status = .successful) s g

/-- The transaction that is left decides what is intended. -/
lemma Ended.deserved {tx : Transaction} (h : Ended s g) (htx : s.transaction = some tx) :
    Deserved (tx.status = .successful) s g := by
  obtain ⟨tx', htx', hdeserved⟩ := h
  obtain rfl : tx = tx' := Option.some.inj (htx.symm.trans htx')
  exact hdeserved

/-- The heartbeat is checked between two parts. -/
lemma wp_checked_turns {p : ItemState → ItemM Bool} {Q : Bool → ItemState → Option Turn → Prop}
    (hp : (p s).wp (itemTurns b) Q (fun _ _ _ => True) s g) :
    (raiseIfFailed >>= fun _ => get >>= p).wp (itemTurns b) Q (fun _ _ _ => True) s g := by
  rw [Proc.wp_bind]
  refine Proc.wp_mono wp_raiseIfFailed_turns ?_ fun _ _ _ _ => trivial
  rintro _ _ _ ⟨rfl, rfl⟩
  exact hp

/-- A snapshot that the turn knows is the transaction that is left. -/
lemma ended_of_executing {tx snapshot : Transaction} (h : Executing id [snapshot] s g)
    (htx : s.transaction = some tx)
    (hstatus : tx.status = .successful → snapshot.status = .successful) :
    Ended s g := by
  obtain ⟨turn, known, rfl, hclaims, hid, hlast, hknown, hmem⟩ := h
  obtain rfl := List.mem_singleton.mp hmem
  refine ⟨tx, htx, fun hsuccessful => ⟨turn, rfl, ?_, fun _ => hclaims.1⟩⟩
  exact ⟨known, _, hlast, hknown.trans hid.symm, hstatus (by simpa using hsuccessful)⟩

/-- **An item that is to be completed has earned it.**

**Proof sketch.** A bound transaction that is already successful was loaded as such; otherwise the
engine leaves the snapshot that the turn knows. -/
theorem wp_execute_turns (h : r.hasTransactionDb = true → Started s g) :
    r.execute.wp (itemTurns r.hasTransactionDb)
      (fun intended s' g' => r.hasTransactionDb = true → Deserved intended s' g')
      (fun _ _ _ => True) s g := by
  have hfound : r.transactionForQueueItem.wp (itemTurns r.hasTransactionDb)
      (fun found s' g' => r.hasTransactionDb = true → Fetched found s' g') (fun _ _ _ => True)
      s g := by
    cases hdb : r.hasTransactionDb with
    | false =>
      exact Proc.wp_mono (wp_transactionForQueueItem_unsaved hdb)
        (fun _ _ _ _ hon => by cases hon) fun _ _ _ h => h
    | true =>
      exact Proc.wp_mono (wp_transactionForQueueItem_turns hdb (h hdb)) (fun _ _ _ h _ => h)
        fun _ _ _ h => h
  unfold execute
  rw [Proc.wp_bind]
  refine Proc.wp_mono hfound ?_ fun _ _ _ h => h
  rintro ⟨tx, revision⟩ s₁ g₁ h₁
  dsimp only
  rw [Proc.wp_bind, Proc.wp_modify]
  -- both branches end with the transaction that is left
  have hskip : (r.hasTransactionDb && tx.status = .successful) = true →
      r.hasTransactionDb = true → Ended
        { s₁ with transaction := some tx, hasContext := true, revision := revision } g₁ := by
    intro hdone hdb
    obtain ⟨snapshot, hexec, hsuccessful, -⟩ := h₁ hdb
    exact ended_of_executing hexec rfl hsuccessful
  have hrun : ¬ (r.hasTransactionDb && tx.status = .successful) = true →
      (r.runEngine tx).wp (itemTurns r.hasTransactionDb)
        (fun _ s' g' => r.hasTransactionDb = true → Ended s' g')
        (fun _ _ _ => True)
        { s₁ with transaction := some tx, hasContext := true, revision := revision } g₁ := by
    intro hnot
    cases hdb : r.hasTransactionDb with
    | false =>
      exact Proc.wp_mono (wp_runEngine_unsaved hdb) (fun _ _ _ _ hon => by cases hon)
        fun _ _ _ h => h
    | true =>
      obtain ⟨snapshot, hexec, -, hunsuccessful⟩ := h₁ hdb
      obtain ⟨hstatus, hkeeps⟩ := hunsuccessful (by simpa [hdb] using hnot)
      refine Proc.wp_mono (wp_runEngine_turns hdb hexec hstatus hkeeps) ?_ fun _ _ _ h => h
      rintro _ s' g' ⟨final, hfinal, hexec'⟩ -
      exact ended_of_executing hexec' hfinal fun h => h
  refine Proc.wp_ite (fun hdone => wp_checked_turns ?_) fun hnot => ?_
  · dsimp only
    split
    · trivial
    · exact fun hdb => (hskip hdone hdb).deserved rfl
  · rw [Proc.wp_bind]
    refine Proc.wp_mono (hrun hnot) (fun _ s₂ g₂ h₂ => wp_checked_turns ?_) fun _ _ _ h => h
    split
    · exact fun _ hintended => by cases hintended
    · next left hleft =>
      split
      · trivial
      · exact fun hdb => (h₂ hdb).deserved hleft

/-! ## The stages of an item -/

/-- Nothing is deserved that is not intended. -/
lemma deserved_false : Deserved false s g := fun h => by cases h

/-- The first stage. -/
lemma wp_executeStage_turns (h : r.hasTransactionDb = true → Started s g) :
    r.executeStage.wp (itemTurns r.hasTransactionDb)
      (fun d s' g' => r.hasTransactionDb = true → Deserved d.intendedComplete s' g')
      (fun _ _ _ => True) s g := by
  simp only [executeStage, Proc.wp_tryCatch, Proc.wp_bind]
  refine Proc.wp_mono (wp_execute_turns h) (fun intended s' g' h' => h') fun err _ _ _ => ?_
  exact Proc.wp_ite (fun _ _ => deserved_false) fun _ => trivial

/-- A look at the heartbeat. -/
lemma wp_heartbeatStage_turns {d : Disposition}
    (h : r.hasTransactionDb = true → Deserved d.intendedComplete s g) :
    (heartbeatStage d).wp (itemTurns b)
      (fun d' s' g' => r.hasTransactionDb = true → Deserved d'.intendedComplete s' g')
      (fun _ _ _ => True) s g := by
  refine Proc.wp_ite (fun _ => h) fun _ => ?_
  simp only [Proc.wp_tryCatch, Proc.wp_bind]
  refine Proc.wp_mono wp_raiseIfFailed_turns ?_ ?_
  · rintro _ _ _ ⟨rfl, rfl⟩
    exact h
  · rintro err _ _ ⟨rfl, rfl⟩
    split
    · exact h
    · exact Proc.wp_ite (fun _ => h) fun _ => trivial

/-- The dispatch of a report leaves the turn as it is. -/
lemma wp_dispatchReport_turns :
    r.dispatchReport.wp (postTurns b) (fun _ s' g' => s'.item = s.item ∧ g' = g)
      (fun _ _ _ => True) s g := by
  have hanswer : ∀ (_ : Unit) (s₁ : ItemState) (g₁ : Option Turn) (op : DispatchOp),
      s₁.item = s.item ∧ g₁ = g → True → (answerDispatch s₁ op).wp (postTurns b)
        (fun a g₂ => True ∧ a.2.item = s.item ∧ g₂ = g) g₁ := by
    intro _ s₁ g₁ op h₁ _
    cases op with
    | send notifier attempt => exact ⟨trivial, fun _ _ => ⟨trivial, h₁⟩⟩
    | wait seconds => exact ⟨trivial, fun _ _ => ⟨trivial, h₁⟩⟩
    | failed name => exact ⟨trivial, fun _ _ => ⟨trivial, h₁⟩⟩
  unfold dispatchReport Proc.wp Proc.start
  rw [Prog.wp_bind]
  refine Prog.wp_mono (Prog.wp_interp (M := sendsOnly fun _ => True)
    (I := fun (_ : Unit) (s₁ : ItemState) (g₁ : Option Turn) => s₁.item = s.item ∧ g₁ = g) hanswer
    (g := ()) (s := s) ⟨rfl, rfl⟩
    (Prog.wp_true (Proc.start (dispatch (S := Unit) true r.notifiers) ()) ())) ?_
  rintro ⟨⟨err | _, _⟩, s₁⟩ g₁ ⟨_, h₁, -⟩
  · trivial
  · exact h₁

/-- The report. -/
lemma wp_reportStage_turns {d : Disposition}
    (h : r.hasTransactionDb = true → Deserved d.intendedComplete s g) :
    (r.reportStage d).wp (postTurns b)
      (fun d' s' g' => r.hasTransactionDb = true → Deserved d'.intendedComplete s' g')
      (fun _ _ _ => True) s g := by
  simp only [reportStage, Proc.wp_bind, Proc.wp_get]
  split
  · exact h
  · refine Proc.wp_ite (fun _ => ?_) fun _ => h
    rw [Proc.wp_bind, Proc.wp_call]
    refine ⟨trivial, fun answer _ => ?_⟩
    split
    · exact Proc.wp_ite (fun _ => h) fun _ => trivial
    · rw [Proc.wp_bind]
      refine Proc.wp_mono wp_dispatchReport_turns ?_ fun _ _ _ _ => trivial
      rintro _ s' _ ⟨hitem, rfl⟩ hdb hintended
      rw [hitem]
      exact h hdb hintended

/-- The callback: the turn remembers whether it has left the item. -/
lemma wp_callbackStage_turns {d : Disposition}
    (h : r.hasTransactionDb = true → Deserved d.intendedComplete s g) :
    (r.callbackStage d).wp (postTurns b)
      (fun _ s' g' => r.hasTransactionDb = true → Deserved d.intendedComplete s' g')
      (fun _ _ _ => True) s g := by
  simp only [callbackStage, Proc.wp_bind, Proc.wp_get]
  refine Proc.wp_ite (fun _ => ?_) fun _ => h
  simp only [Proc.wp_bind, Proc.wp_call, Proc.wp_modify]
  refine ⟨trivial, fun answer _ => ?_⟩
  obtain ⟨raised, left⟩ := answer
  have hleft : r.hasTransactionDb = true → Deserved d.intendedComplete { s with item := left }
      (g.map (Turn.callback s.item left)) := by
    intro hdb hintended
    obtain ⟨turn, rfl, hearned, hkept⟩ := h hdb hintended
    refine ⟨turn.callback s.item left, rfl, hearned, fun hstill => ?_⟩
    obtain ⟨hbefore, hid⟩ := Bool.and_eq_true_iff.mp hstill
    exact (of_decide_eq_true hid).trans (hkept hbefore)
  dsimp only
  split
  · exact Proc.wp_ite (fun _ => hleft) fun _ => trivial
  · exact hleft

/-- A call that leaves the turn as it is, and is repeated. -/
lemma wp_quietRetries_turns {α : Type} {act exhausted : ItemM (Except PyError α)} {n : ℕ}
    (hact : act.wp (itemTurns b) (fun _ s' g' => s' = s ∧ g' = g) (fun _ s' g' => s' = s ∧ g' = g)
      s g) :
    (lockRetries act exhausted (n + 1)).wp (itemTurns b) (fun _ _ _ => True) (fun _ _ _ => True)
      s g := by
  refine Proc.wp_mono (wp_lockRetries_turns (P := fun _ _ => True) n (Proc.wp_mono hact ?_
    fun _ _ _ h => h)) (fun _ _ _ _ => trivial) fun _ _ _ _ => trivial
  exact fun _ _ _ h => ⟨h.1, trivial, fun _ _ => h.2⟩

/-- A completion that the turn has earned. -/
lemma wp_complete_turns (h : b = true → Deserved true s g) :
    completeQueueItemWithRetries.wp (itemTurns b) (fun _ _ _ => True) (fun _ _ _ => True) s g := by
  simp only [completeQueueItemWithRetries, Proc.wp_bind, Proc.wp_get]
  exact wp_quietRetries_turns ⟨fun hdb => h hdb rfl, fun _ _ => ⟨rfl, rfl⟩⟩

/-- A failure needs nothing. -/
lemma wp_fail_turns {retry : Bool} :
    (failQueueItemWithRetries retry).wp (itemTurns b) (fun _ _ _ => True) (fun _ _ _ => True)
      s g := by
  simp only [failQueueItemWithRetries, Proc.wp_bind, Proc.wp_get]
  refine Proc.wp_mono (wp_quietRetries_turns ⟨trivial, fun _ _ => ⟨rfl, rfl⟩⟩)
    (fun answer _ _ _ => ?_) fun _ _ _ _ => trivial
  split <;> trivial

/-- **The final transition**: an item is completed if that is earned. -/
lemma wp_settle_turns {d : Disposition} {callbackFailed : Bool}
    (h : r.hasTransactionDb = true → Deserved d.intendedComplete s g) :
    (r.settle d callbackFailed).wp (itemTurns r.hasTransactionDb) (fun _ _ _ => True)
      (fun _ _ _ => True) s g := by
  unfold settle
  refine Proc.wp_ite (fun _ => trivial) fun _ => Proc.wp_ite (fun hintended => ?_) fun _ => ?_
  · rw [Proc.wp_bind]
    rw [hintended] at h
    refine Proc.wp_mono (wp_complete_turns h) (fun answer _ _ _ => ?_) fun _ _ _ _ => trivial
    split <;> trivial
  · simp only [Proc.wp_bind, Proc.wp_get]
    refine Proc.wp_mono wp_fail_turns (fun answer _ _ _ => ?_) fun _ _ _ _ => trivial
    split <;> trivial

/-- **One item**: what its processing saves and completes. -/
theorem wp_runClaimedItem_turns (h : r.hasTransactionDb = true → Started s g) :
    r.runClaimedItem.wp ((turns r.hasTransactionDb).pull LoopOp.run) (fun _ _ _ => True)
      (fun _ _ _ => True) s g := by
  unfold runClaimedItem
  simp only [Proc.wp_bind, Proc.wp_embed]
  refine Proc.wp_mono (wp_executeStage_turns h) (fun executed s₁ g₁ h₁ => ?_) fun _ _ _ h => h
  refine Proc.wp_mono (wp_heartbeatStage_turns h₁) (fun checked s₂ g₂ h₂ => ?_) fun _ _ _ h => h
  refine Proc.wp_mono (wp_reportStage_turns h₂) (fun reported s₃ g₃ h₃ => ?_) fun _ _ _ h => h
  refine Proc.wp_mono (wp_callbackStage_turns h₃) (fun callbackFailed s₄ g₄ h₄ => ?_)
    fun _ _ _ h => h
  refine Proc.wp_mono (wp_heartbeatStage_turns h₄) (fun final s₅ g₅ h₅ => ?_) fun _ _ _ h => h
  exact wp_settle_turns h₅

end Runner

/-! ## The loop -/

namespace QueueLoop

open Proc

variable {c : QueueLoop} {s : QueueRunSummary} {g : Option Turn} {n : ℕ} {b : Bool}

/-- A claimed item begins a turn. -/
lemma wp_nextItemWithRetries_turns :
    (c.nextItemWithRetries n).wp (turns b)
      (fun item _ g' => ∀ i, item = some i → g' = some (.ofItem i)) (fun _ _ _ => True) s g := by
  induction n generalizing g with
  | zero => trivial
  | succ n ih =>
    unfold nextItemWithRetries
    rw [Proc.wp_bind]
    have hstop : (c.stopRequested).wp (turns b) (fun _ s' _ => s' = s) (fun _ _ _ => True) s g :=
      Proc.wp_ite (fun _ => ⟨trivial, fun _ _ => rfl⟩) fun _ => rfl
    refine Proc.wp_mono hstop ?_ fun _ _ _ h => h
    rintro stopped _ g' rfl
    refine Proc.wp_ite (fun _ => by simp) fun _ => ?_
    rw [Proc.wp_bind]
    refine ⟨trivial, fun answer _ => ?_⟩
    cases answer with
    | ok item =>
      rintro i rfl
      rfl
    | error err =>
      refine Proc.wp_ite (fun _ => ?_) fun _ => trivial
      rw [Proc.wp_bind]
      exact ⟨trivial, fun _ _ => ih⟩

/-- A claimed item is processed in its turn. -/
lemma wp_runItem_turns {item : QueueItem} :
    (c.runItem item).wp (turns c.runner.hasTransactionDb) (fun _ _ _ => True) (fun _ _ _ => True)
      s (some (.ofItem item)) := by
  unfold runItem
  rw [Proc.wp_bind, Proc.wp_modify, Proc.wp_bind, Proc.wp_call]
  refine ⟨trivial, fun started _ => ?_⟩
  split
  · trivial
  · rw [Proc.wp_bind, Proc.wp_attempt]
    have hitem : (c.runClaimedItem item).wp (turns c.runner.hasTransactionDb) (fun _ _ _ => True)
        (fun _ _ _ => True) (countProcessed s) (some (.ofItem item)) := by
      have hrun := Runner.wp_runClaimedItem_turns (r := c.runner)
        (s := ⟨countProcessed s, item, none, false, 0⟩) (g := some (.ofItem item))
        fun _ => ⟨.ofItem item, rfl, ⟨rfl, rfl, rfl⟩, rfl, rfl⟩
      unfold runClaimedItem Proc.wp Proc.start
      rw [Prog.wp_bind, Prog.wp_embed]
      refine Prog.wp_mono hrun ?_
      rintro ⟨err | goesOn, s'⟩ g' -
      · trivial
      · trivial
    refine Proc.wp_mono hitem (fun goesOn _ _ _ => ?_) fun err _ _ _ => ?_
    · rw [Proc.wp_bind]
      refine ⟨trivial, fun stopped _ => ?_⟩
      cases stopped <;> trivial
    · rw [Proc.wp_bind]
      exact ⟨trivial, fun _ _ => trivial⟩

/-- All items. -/
lemma wp_runItems_turns :
    (c.runItems n).wp (turns c.runner.hasTransactionDb) (fun _ _ _ => True) (fun _ _ _ => True)
      s g := by
  induction n generalizing s g with
  | zero => trivial
  | succ n ih =>
    unfold runItems
    rw [Proc.wp_bind]
    refine Proc.wp_mono wp_nextItemWithRetries_turns (fun item s₁ g₁ h₁ => ?_) fun _ _ _ h => h
    cases item with
    | none => trivial
    | some item =>
      obtain rfl := h₁ item rfl
      dsimp only
      rw [Proc.wp_bind]
      refine Proc.wp_mono wp_runItem_turns (fun goesOn _ _ _ => ?_) fun _ _ _ h => h
      exact Proc.wp_ite (fun _ => ih) fun _ => trivial

/-- The items in their resource scope. -/
lemma wp_runScoped_turns :
    (c.runScoped n).wp (turns c.runner.hasTransactionDb) (fun _ _ _ => True) (fun _ _ _ => True)
      s g := by
  refine Proc.wp_ite (fun _ => ?_) fun _ => wp_runItems_turns
  rw [Proc.wp_bind, Proc.wp_call]
  refine ⟨trivial, fun entered _ => ?_⟩
  rw [Proc.wp_bind, Proc.wp_ofExcept]
  cases entered with
  | error err => trivial
  | ok yielded =>
    have hscope : (c.runInScope n yielded).wp (turns c.runner.hasTransactionDb) (fun _ _ _ => True)
        (fun _ _ _ => True) s g := by
      cases yielded with
      | none => exact wp_runItems_turns
      | some err => trivial
    dsimp only
    rw [Proc.wp_bind, Proc.wp_attempt]
    refine Proc.wp_mono hscope (fun ended s' g' _ => ?_) fun err s' g' _ => ?_
    · cases ended with
      | false => trivial
      | true =>
        refine ⟨trivial, fun left _ => ?_⟩
        cases left <;> trivial
    · refine ⟨trivial, fun left _ => ?_⟩
      refine Proc.wp_ite (fun _ => ?_) fun _ => trivial
      cases left with
      | error _ => trivial
      | ok suppressed => exact Proc.wp_ite (fun _ => trivial) fun _ => trivial

/-- **What the loop saves and completes**: in each turn, what the turn may save, and the item only
where that is earned. -/
theorem wp_runQueueLoop_turns :
    (c.runQueueLoop n).wp (turns c.runner.hasTransactionDb) (fun _ _ _ => True)
      (fun _ _ _ => True) s g := by
  have hprepared : (c.runPrepared n).wp (turns c.runner.hasTransactionDb) (fun _ _ _ => True)
      (fun _ _ _ => True) s g := by
    refine Proc.wp_ite (fun _ => ?_) fun _ => wp_runScoped_turns
    rw [Proc.wp_bind, Proc.wp_call]
    refine ⟨trivial, fun prepared _ => ?_⟩
    rw [Proc.wp_bind, Proc.wp_ofExcept]
    cases prepared with
    | error err => trivial
    | ok => exact wp_runScoped_turns
  have hfinish : ∀ (outcome : Except PyError Bool) (s' : QueueRunSummary) (g' : Option Turn),
      (c.finish outcome).wp (turns c.runner.hasTransactionDb) (fun _ _ _ => True)
        (fun _ _ _ => True) s' g' := by
    intro outcome s' g'
    refine Proc.wp_ite (fun _ => ?_) fun _ => trivial
    simp only [Proc.wp_bind, Proc.wp_get, Proc.wp_call]
    refine ⟨trivial, fun answer _ => ?_⟩
    split
    · trivial
    · refine Proc.wp_ite (fun _ => trivial) fun _ => ?_
      split
      · trivial
      · exact Proc.wp_ite (fun _ => trivial) fun _ => trivial
  unfold runQueueLoop
  rw [Proc.wp_bind, Proc.wp_attempt]
  refine Proc.wp_mono hprepared (fun ended s' g' _ => ?_) fun err s' g' _ => ?_
  · cases ended with
    | false => trivial
    | true =>
      dsimp only
      rw [Proc.wp_bind]
      exact Proc.wp_mono (hfinish _ s' g') (fun _ _ _ _ => trivial) fun _ _ _ h => h
  · dsimp only
    rw [Proc.wp_bind]
    exact Proc.wp_mono (hfinish _ s' g') (fun _ _ _ _ => trivial) fun _ _ _ h => h

end QueueLoop
