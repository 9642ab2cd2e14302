import RpaCore.Queue.Rows

set_option relaxedAutoImplicit false
set_option autoImplicit false

/-!
# Producers that add once

`add_once` looks for an active item with the same reference and inserts in one write transaction.
Producers and workers share a queue into which every item comes by `add_once`; overrides that fail
an item are applied to active items, since with a retry they would make a finished item active
again.

## Main definitions

* `QueueDb.addOnce` — `add_once`.
* `IntakeOp`, `IntakeCall`, `IntakeRun` — producers and workers on one queue.
* `QueueDb.UniqueReferences` — one active item for each reference.

## Main results

* `addOnce_unique` — references stay unique, and `add_once` refuses exactly the active ones.
-/

/-! ## The method -/

/-- `active_statuses=(QueueStatus.PENDING, QueueStatus.IN_PROGRESS)`. -/
def defaultActiveStatuses : Option (List QueueStatus) := some [.pending, .inProgress]

/-- The write transaction of `add_once`: no statuses stand for all of them. -/
def QueueDb.addOnce (q : SqliteQueue) (item : QueueItem)
    (activeStatuses : Option (List QueueStatus)) (db : QueueDb) :
    Except PyError (Bool × QueueDb) :=
  if db.items.any fun row => row.reference = item.reference &&
      activeStatuses.all fun statuses => statuses.contains row.status then
    .ok (false, db)
  else (db.add q item).map fun db' => (true, db')

/-- With the default statuses `add_once` looks for an active item. -/
lemma QueueDb.any_active_iff {db : QueueDb} {reference : String} :
    (db.items.any fun row => row.reference = reference &&
      defaultActiveStatuses.all fun statuses => statuses.contains row.status) = true ↔
    ∃ row ∈ db.items, row.reference = reference ∧ row.isActive = true := by
  simp [defaultActiveStatuses, QueueRow.isActive]

/-- The statements of producers and workers. -/
inductive IntakeOp
  | queue (op : QueueOp)
  | addOnce (q : SqliteQueue) (item : QueueItem) (activeStatuses : Option (List QueueStatus))

/-- What a statement is answered with. -/
abbrev IntakeOp.Res : IntakeOp → Type
  | .queue op => op.Res
  | .addOnce _ _ _ => Except PyError Bool

/-- How the statements are answered; an override that fails an item finds it active. -/
def IntakeOp.Exec (s : QueueSystem) : (op : IntakeOp) → op.Res → QueueSystem → Prop
  | .queue op, r, s' => op.Exec s r s' ∧ ∀ row ∈ s.db.items, op.Reopens row → row.isActive = true
  | .addOnce q item activeStatuses, r, s' => s'.issued = s.issued ∧
    Atomically PyError.IsOperational (QueueDb.addOnce q item activeStatuses) s.db r s'.db

/-- The database as the machine that answers producers and workers. -/
def intakeMachine : Machine IntakeOp IntakeOp.Res QueueSystem := ⟨IntakeOp.Exec⟩

/-- What a call returns. -/
inductive IntakeAnswer
  | added (inserted : Bool)
  | queue (answer : QueueAnswer)

/-- The program of `add_once`. -/
def SqliteQueue.addOnce (q : SqliteQueue) (item : QueueItem)
    (activeStatuses : Option (List QueueStatus)) :
    Prog IntakeOp IntakeOp.Res (Except PyError IntakeAnswer) :=
  .call (.addOnce q item activeStatuses) fun answer => .pure (answer.map .added)

/-- A program of a queue method among producers. -/
def Prog.onIntake (prog : Prog QueueOp QueueOp.Res (Except PyError QueueAnswer)) :
    Prog IntakeOp IntakeOp.Res (Except PyError IntakeAnswer) :=
  (prog.interp (fun (_ : Unit) op => .call (.queue op) fun r => .pure (r, ())) ()).bind
    fun r => .pure (r.1.map .queue)

/-- The calls of producers and workers: items only come in by `add_once` with the default
statuses. -/
inductive IntakeCall : Prog IntakeOp IntakeOp.Res (Except PyError IntakeAnswer) → Prop
  | addOnce (q : SqliteQueue) (item : QueueItem) :
      IntakeCall (q.addOnce item defaultActiveStatuses)
  | nextItem (q : SqliteQueue) (workerId : String) (rounds : ℕ) :
      IntakeCall (q.nextItemCall workerId rounds).onIntake
  | bindTransaction (itemId transactionId claimedBy claimToken : String) :
      IntakeCall ((SqliteQueue.bindTransaction itemId transactionId claimedBy
        claimToken).program fun _ => .done).onIntake
  | renewLease (itemId claimedBy claimToken : String) :
      IntakeCall ((SqliteQueue.renewLease itemId claimedBy claimToken).program fun _ =>
        .done).onIntake
  | complete (itemId claimedBy claimToken : String) :
      IntakeCall ((SqliteQueue.complete itemId claimedBy claimToken).program fun _ =>
        .done).onIntake
  | fail (q : SqliteQueue) (itemId claimedBy claimToken : String) (retry : Bool) :
      IntakeCall ((q.fail itemId claimedBy claimToken retry).program .outcome).onIntake
  | forceComplete (q : SqliteQueue) (itemId reason : String) :
      IntakeCall ((q.forceComplete itemId reason).program fun _ => .done).onIntake
  | forceFail (q : SqliteQueue) (itemId reason : String) (retry : Bool) :
      IntakeCall ((q.forceFail itemId reason retry).program fun _ => .done).onIntake

/-- Producers and workers on one queue. -/
abbrev IntakePool := Pool IntakeOp IntakeOp.Res QueueSystem (Except PyError IntakeAnswer)

/-- The runs of any number of producers and workers from an empty queue. -/
def IntakeRun (t : List (PoolLabel IntakeOp IntakeOp.Res (Except PyError IntakeAnswer)))
    (P : IntakePool) : Prop :=
  intakeMachine.Run IntakeCall ⟨QueueSystem.init, fun _ => .pure (.ok (.queue .done))⟩ t P

/-! ## What the calls send -/

/-- A statement of a queue method that adds nothing. -/
def QueueOp.Consumes (op : QueueOp) : Prop := op.Legit ∧ ∀ q item, op ≠ .add q item

/-- The statements that the calls send. -/
def IntakeOp.Sent : IntakeOp → Prop
  | .queue op => op.Consumes
  | .addOnce _ _ activeStatuses => activeStatuses = defaultActiveStatuses

/-- A queue program among producers sends the statements of the program. -/
lemma Prog.wp_onIntake {prog : Prog QueueOp QueueOp.Res (Except PyError QueueAnswer)}
    (h : prog.wp (sendsOnly QueueOp.Consumes) (fun _ _ => True) ()) :
    prog.onIntake.wp (sendsOnly IntakeOp.Sent) (fun _ _ => True) () := by
  rw [Prog.onIntake, Prog.wp_bind]
  refine Prog.wp_mono (Prog.wp_interp (I := fun _ _ _ => True) ?_ trivial h) fun _ _ _ => trivial
  exact fun _ _ _ op _ hpre => ⟨hpre, fun _ _ => ⟨trivial, trivial⟩⟩

/-- A method whose code only consumes. -/
lemma QueueM.consumes {α : Type} {p : QueueM α} {f : α → QueueAnswer}
    (h : p.wp (sendsOnly QueueOp.Consumes) (fun _ _ _ => True) (fun _ _ _ => True) () ()) :
    (p.program f).wp (sendsOnly QueueOp.Consumes) (fun _ _ => True) () :=
  QueueM.program_wp.mpr h

/-- The loop of `next_item` only consumes. -/
lemma SqliteQueue.nextItemLoop_consumes (q : SqliteQueue) (workerId : String) (n : ℕ) :
    (q.nextItemLoop workerId n).wp (sendsOnly QueueOp.Consumes) (fun _ _ _ => True)
      (fun _ _ _ => True) () () := by
  have hsent : ∀ {op : QueueOp}, op.Legit → (∀ q item, op ≠ .add q item) →
      (sendsOnly QueueOp.Consumes : Monitor QueueOp QueueOp.Res Unit).pre () op :=
    fun h h' => ⟨h, h'⟩
  induction n with
  | zero => trivial
  | succ n ih =>
    simp only [nextItemLoop, SqliteQueue.now, newToken, Proc.wp_bind, Proc.wp_call,
      Proc.wp_ofExcept]
    refine ⟨hsent trivial (by simp), fun now _ => ⟨hsent trivial (by simp), fun answer _ => ?_⟩⟩
    cases answer with
    | error err => trivial
    | ok selected =>
      cases selected with
      | none => trivial
      | some row =>
        simp only [Proc.wp_bind, Proc.wp_ofExcept]
        split
        · split
          · split
            · trivial
            · simp only [Proc.wp_bind, Proc.wp_call, Proc.wp_ofExcept]
              refine ⟨hsent trivial (by simp), fun _ _ => ⟨hsent trivial (by simp), fun _ _ =>
                ⟨hsent trivial (by simp), fun answer _ => ?_⟩⟩⟩
              cases answer with
              | error err => trivial
              | ok => exact ih
          · simp only [Proc.wp_bind, Proc.wp_call, Proc.wp_ofExcept]
            refine ⟨hsent trivial (by simp), fun _ _ => ⟨hsent trivial (by simp), fun _ _ =>
              ⟨hsent trivial (by simp), fun answer _ => ?_⟩⟩⟩
            cases answer with
            | error err => trivial
            | ok updated =>
              cases updated with
              | none => exact ih
              | some updated => trivial
        · trivial

/-- **What every call sends.** -/
lemma IntakeCall.sends {prog : Prog IntakeOp IntakeOp.Res (Except PyError IntakeAnswer)}
    (h : IntakeCall prog) : prog.wp (sendsOnly IntakeOp.Sent) (fun _ _ => True) () := by
  have hsent : ∀ {op : QueueOp}, op.Legit → (∀ q item, op ≠ .add q item) →
      (sendsOnly QueueOp.Consumes : Monitor QueueOp QueueOp.Res Unit).pre () op :=
    fun h h' => ⟨h, h'⟩
  have hend : ∀ {x : Except PyError Unit}, (Proc.ofExcept x : QueueM Unit).wp
      (sendsOnly QueueOp.Consumes) (fun _ _ _ => True) (fun _ _ _ => True) () () := by
    intro x
    rw [Proc.wp_ofExcept]
    cases x <;> trivial
  have hforce : ∀ (q : SqliteQueue) (itemId : String) (requested : QueueStatus) (reason : String)
      (retry : Bool), requested = .successful ∨ requested = .failed →
      (q.forceTransition itemId requested reason retry).wp (sendsOnly QueueOp.Consumes)
        (fun _ _ _ => True) (fun _ _ _ => True) () () := by
    intro q itemId requested reason retry hrequested
    unfold SqliteQueue.forceTransition
    split
    · trivial
    · exact ⟨hsent trivial (by simp), fun _ _ => ⟨hsent hrequested (by simp), fun _ _ => hend⟩⟩
  cases h with
  | addOnce q item => exact ⟨rfl, fun _ _ => trivial⟩
  | nextItem q workerId rounds =>
    refine Prog.wp_onIntake (QueueM.consumes ?_)
    simp only [SqliteQueue.nextItem, SqliteQueue.now, Proc.wp_bind, Proc.wp_call, Proc.wp_ofExcept]
    refine ⟨hsent trivial (by simp), fun _ _ => ⟨hsent trivial (by simp), fun answer _ => ?_⟩⟩
    cases answer with
    | error err => trivial
    | ok => exact q.nextItemLoop_consumes workerId rounds
  | bindTransaction itemId transactionId claimedBy claimToken =>
    exact Prog.wp_onIntake (QueueM.consumes ⟨hsent trivial (by simp), fun _ _ => hend⟩)
  | renewLease itemId claimedBy claimToken =>
    exact Prog.wp_onIntake (QueueM.consumes ⟨hsent trivial (by simp), fun _ _ =>
      ⟨hsent trivial (by simp), fun _ _ => hend⟩⟩)
  | complete itemId claimedBy claimToken =>
    exact Prog.wp_onIntake (QueueM.consumes ⟨hsent trivial (by simp), fun _ _ =>
      ⟨hsent trivial (by simp), fun _ _ => hend⟩⟩)
  | fail q itemId claimedBy claimToken retry =>
    refine Prog.wp_onIntake (QueueM.consumes ?_)
    simp only [SqliteQueue.fail, SqliteQueue.now, Proc.wp_bind, Proc.wp_call, Proc.wp_ofExcept]
    refine ⟨hsent trivial (by simp), fun answer _ => ?_⟩
    cases answer with
    | error err => trivial
    | ok count =>
      refine ⟨hsent trivial (by simp), fun _ _ => ⟨hsent trivial (by simp), fun answer _ => ?_⟩⟩
      cases answer <;> trivial
  | forceComplete q itemId reason =>
    exact Prog.wp_onIntake (QueueM.consumes (hforce q itemId _ reason false (Or.inl rfl)))
  | forceFail q itemId reason retry =>
    exact Prog.wp_onIntake (QueueM.consumes (hforce q itemId _ reason retry (Or.inr rfl)))

/-! ## Unique references -/

/-- **Unique references**: each reference has at most one item that is pending or in progress. -/
def QueueDb.UniqueReferences (db : QueueDb) : Prop :=
  ∀ reference, db.items.countP (fun row => row.reference = reference && row.isActive) ≤ 1

namespace QueueDb.UniqueReferences

variable {db db' : QueueDb}

/-- A statement that reopens nothing keeps references unique. -/
lemma rowsStep (h : db.UniqueReferences) {op : QueueOp} (hstep : RowsStep op db db')
    (hreopens : ∀ row ∈ db.items, op.Reopens row → row.isActive = true) :
    db'.UniqueReferences := by
  obtain ⟨f, hitems, hf⟩ := hstep
  intro reference
  rw [hitems, List.countP_map]
  refine Nat.le_trans (List.countP_mono_left fun row hrow hcounted => ?_) (h reference)
  have hrs := hf row hrow
  simp only [Function.comp_apply, Bool.and_eq_true, decide_eq_true_eq] at hcounted ⊢
  refine ⟨hrs.reference ▸ hcounted.1, ?_⟩
  exact (hrs.active hcounted.2).elim id (hreopens row hrow)

/-- `add_once` with the default statuses keeps references unique. -/
lemma addOnce (h : db.UniqueReferences) {q : SqliteQueue} {item : QueueItem} {inserted : Bool}
    (hadd : db.addOnce q item defaultActiveStatuses = .ok (inserted, db')) :
    db'.UniqueReferences := by
  unfold QueueDb.addOnce at hadd
  split at hadd
  · cases hadd
    exact h
  · next hnone =>
    rw [QueueDb.any_active_iff] at hnone
    push Not at hnone
    cases hrun : db.add q item with
    | error err =>
      rw [hrun] at hadd
      cases hadd
    | ok d =>
      rw [hrun] at hadd
      cases hadd
      obtain ⟨due, -, -, -, rfl⟩ := add_row hrun
      intro reference
      rw [List.countP_append]
      by_cases hsame : item.reference = reference
      · -- no active item had the reference of the new one
        have hzero :
            db.items.countP (fun row => row.reference = reference && row.isActive) = 0 := by
          refine List.countP_eq_zero.mpr fun row hrow hcounted => ?_
          simp only [Bool.and_eq_true, decide_eq_true_eq] at hcounted
          exact hnone row hrow (hcounted.1.trans hsame.symm) hcounted.2
        rw [hzero, Nat.zero_add]
        exact List.countP_le_length
      · simpa [hsame] using h reference

/-- **A statement keeps references unique.** -/
lemma exec {s s' : QueueSystem} (h : s.db.UniqueReferences) {op : IntakeOp} {r : op.Res}
    (hsent : op.Sent) (hexec : op.Exec s r s') : s'.db.UniqueReferences := by
  cases op with
  | queue op =>
    obtain ⟨hop, hreopens⟩ := hexec
    rcases hop.db with heq | ⟨v, hrun⟩
    · rw [heq]
      exact h
    · exact h.rowsStep (QueueOp.run_rows hsent.2 hsent.1 hrun) hreopens
  | addOnce q item activeStatuses =>
    rcases hexec.2.cases with heq | ⟨inserted, -, hrun⟩
    · rw [heq]
      exact h
    · rw [show activeStatuses = defaultActiveStatuses from hsent] at hrun
      exact h.addOnce hrun

end QueueDb.UniqueReferences

/-- **`add_once` keeps references unique.** In every state that producers and workers reach, each
reference has at most one item that is pending or in progress; and when `add_once` returns, it
returns `False` exactly if an item with its reference was pending or in progress when its write
transaction took place.

**Proof sketch.** A statement other than an insertion makes no item active (`QueueOp.run_rows`), and
the search and the insertion of `add_once` are one transaction. -/
theorem addOnce_unique
    {t : List (PoolLabel IntakeOp IntakeOp.Res (Except PyError IntakeAnswer))} {P : IntakePool}
    (h : IntakeRun t P) :
    P.shared.db.UniqueReferences ∧
      ∀ p q item activeStatuses inserted P', intakeMachine.Step IntakeCall P
          (.answer p ⟨.addOnce q item activeStatuses, .ok inserted⟩) P' →
        (inserted = false ↔ ∃ row ∈ P.shared.db.items, row.reference = item.reference ∧
          row.isActive = true) := by
  have hsends : ∀ {t P}, IntakeRun t P → ∀ p, (P.procs p).wp (sendsOnly IntakeOp.Sent)
      (fun _ _ => True) () :=
    fun h => Machine.Run.sends (fun _ => IntakeCall.sends) h fun _ => ⟨_, rfl⟩
  refine ⟨?_, fun p q item activeStatuses inserted P' hstep => ?_⟩
  · induction h with
    | nil => exact fun _ => Nat.zero_le _
    | snoc hrun hstep ih =>
      cases hstep with
      | start => exact ih
      | @answer p op k r s' hcall hexec =>
        have hsent := hsends hrun p
        rw [hcall] at hsent
        exact ih.exec hsent.1 hexec
  · cases hstep with
    | @answer _ _ k _ s' hcall hexec =>
      have hsent := hsends h p
      rw [hcall] at hsent
      obtain rfl : activeStatuses = defaultActiveStatuses := hsent.1
      rw [← QueueDb.any_active_iff]
      have hrun := hexec.2.ok
      unfold QueueDb.addOnce at hrun
      split at hrun
      · next hany =>
        obtain rfl : false = inserted := congrArg Prod.fst (Except.ok.inj hrun)
        simp only [hany]
      · next hany =>
        cases hadd : P.shared.db.add q item with
        | error err =>
          rw [hadd] at hrun
          cases hrun
        | ok d =>
          rw [hadd] at hrun
          obtain rfl : true = inserted := congrArg Prod.fst (Except.ok.inj hrun)
          simp only [hany, Bool.true_eq_false, Bool.false_eq_true]

/-- A producer adds an item to an empty queue, and a second one is refused. -/
theorem addOnce_unique_added : ∃ t P P', IntakeRun t P ∧ P.shared.db.items.length = 1 ∧
    intakeMachine.Step IntakeCall P
      (.answer 1 ⟨.addOnce plainQueue plainItem defaultActiveStatuses, .ok false⟩) P' ∧
    P.shared.db.UniqueReferences ∧ ∃ row ∈ P.shared.db.items, row.isActive = true := by
  obtain ⟨db, hdb, hlength, hagain⟩ : ∃ db, QueueDb.addOnce plainQueue plainItem
      defaultActiveStatuses QueueDb.empty = .ok (true, db) ∧ db.items.length = 1 ∧
        QueueDb.addOnce plainQueue plainItem defaultActiveStatuses db = .ok (false, db) :=
    ⟨_, rfl, rfl, rfl⟩
  have hidle : IntakeRun [] ⟨QueueSystem.init, fun _ => .pure (.ok (.queue .done))⟩ := .nil _
  have hfirst : IntakeOp.Exec QueueSystem.init
      (.addOnce plainQueue plainItem defaultActiveStatuses) (.ok true) ⟨db, []⟩ :=
    ⟨rfl, .commit hdb⟩
  have hsecond : IntakeOp.Exec ⟨db, []⟩
      (.addOnce plainQueue plainItem defaultActiveStatuses) (.ok false) ⟨db, []⟩ :=
    ⟨rfl, .commit hagain⟩
  have hadded := Machine.Run.snoc (Machine.Run.snoc hidle
    (.start (p := 0) rfl (.addOnce plainQueue plainItem))) (.answer (p := 0) rfl hfirst)
  have hstarted := hadded.snoc (.start (p := 1) rfl (.addOnce plainQueue plainItem))
  obtain ⟨hunique, hrefused⟩ := addOnce_unique hstarted
  refine ⟨_, _, _, hstarted, hlength, .answer rfl hsecond, hunique, ?_⟩
  obtain ⟨row, hrow, -, hactive⟩ := (hrefused 1 _ _ _ false _ (.answer rfl hsecond)).mp rfl
  exact ⟨row, hrow, hactive⟩
