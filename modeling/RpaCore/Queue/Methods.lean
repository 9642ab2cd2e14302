import RpaCore.Effects.Pool
import RpaCore.Effects.Proc
import RpaCore.Queue.Basic

set_option relaxedAutoImplicit false
set_option autoImplicit false

/-!
# The methods of `SqliteQueue`

Each method is the program of the statements it sends to the database: a write transaction is one
call, a `SELECT` outside a transaction is one call, and so is a reading of the clock or a fresh
token. Between two calls of one method other workers may do anything, and a worker may stop at
any call for ever.

`next_item` loops until it claims an item or finds none. The program is cut off after a number of
rounds; a run is finite, so a large enough number is no restriction on it.

## Main definitions

* `QueueOp` — the statements, with their answers.
* `SqliteQueue.nextItem`, `SqliteQueue.fail`, … — the methods.
* `QueueSystem`, `queueMachine` — a queue database shared by workers.
* `QueueCall` — the programs a worker may run.
-/

/-- The statements the methods send, with the configuration of the queue object that sends
them. -/
inductive QueueOp
  | clock
  | newToken
  | add (q : SqliteQueue) (item : QueueItem)
  | reclaimStale (q : SqliteQueue) (now : Datetime)
  | selectNext (now : Datetime)
  | quarantine (selected : QueueRow) (now : Datetime) (errorType : String) (createdAt : Datetime)
  | claim (selected : QueueRow) (workerId : String) (now : Datetime) (token : ClaimToken)
  | bindTransaction (itemId transactionId claimedBy claimToken : String)
  | renewLease (itemId claimedBy claimToken : String) (now : Datetime)
  | complete (itemId claimedBy claimToken : String) (finishedAt : Datetime)
  | failRead (itemId claimedBy claimToken : String)
  | failCommit (q : SqliteQueue) (itemId claimedBy claimToken : String) (retry : Bool)
      (readCount : ℤ) (now : Datetime)
  | forceTransition (q : SqliteQueue) (itemId : String) (requested : QueueStatus) (reason : String)
      (retry : Bool) (now : Datetime)

/-- What a statement is answered with. -/
abbrev QueueOp.Res : QueueOp → Type
  | .clock => Datetime
  | .newToken => ClaimToken
  | .add _ _ => Except PyError Unit
  | .reclaimStale _ _ => Except PyError Unit
  | .selectNext _ => Except PyError (Option QueueRow)
  | .quarantine _ _ _ _ => Except PyError Unit
  | .claim _ _ _ _ => Except PyError (Option QueueRow)
  | .bindTransaction _ _ _ _ => Except PyError Unit
  | .renewLease _ _ _ _ => Except PyError Unit
  | .complete _ _ _ _ => Except PyError Unit
  | .failRead _ _ _ => Except PyError ℤ
  | .failCommit _ _ _ _ _ _ _ => Except PyError QueueAttemptOutcome
  | .forceTransition _ _ _ _ _ _ => Except PyError Unit

/-- Code of a queue method. -/
abbrev QueueM := Proc QueueOp QueueOp.Res Unit PyError

/-- `row_to_item` with a decoded payload. -/
def QueueRow.toItem (row : QueueRow) (payload : PyVal) : QueueItem where
  reference := row.reference
  payload := payload
  id := row.id
  status := row.status
  retryCount := row.retryCount
  createdAt := row.createdAt
  claimedBy := row.claimedBy
  claimedAt := row.claimedAt
  claimToken := row.claimToken
  transactionId := row.transactionId
  availableAt := row.availableAt

/-- The type names of the exceptions for which `next_item` quarantines a payload. -/
def PyError.payloadErrorType : PyError → Option String
  | .jsonDecode _ => some "JSONDecodeError"
  | .jsonState _ => some "JsonStateError"
  | _ => none

namespace SqliteQueue

/-- A clock reading. -/
def now : QueueM Datetime := Proc.call QueueOp.clock

/-- A fresh token. -/
def newToken : QueueM ClaimToken := Proc.call QueueOp.newToken

/-- `add`. -/
def add (q : SqliteQueue) (item : QueueItem) : QueueM Unit := do
  let answer : Except PyError Unit ← Proc.call (QueueOp.add q item)
  Proc.ofExcept answer

/-- The `while True` loop of `next_item`, for at most `n` rounds; `none` is a loop that was cut
off. -/
def nextItemLoop (q : SqliteQueue) (workerId : String) : ℕ → QueueM (Option (Option QueueItem))
  | 0 => pure none
  | n + 1 => do
    let now ← now
    let answer : Except PyError (Option QueueRow) ← Proc.call (QueueOp.selectNext now)
    match ← Proc.ofExcept answer with
    | none => pure (some none)
    | some row =>
      let _ ← Proc.ofExcept (parseAvailableAt row.availableAt)
      match loadPayload q.jsonLoads row.payload with
      | .error err =>
        match err.payloadErrorType with
        | none => throw err
        | some errorType =>
          let now ← SqliteQueue.now
          let createdAt ← SqliteQueue.now
          let answer : Except PyError Unit ←
            Proc.call (QueueOp.quarantine row now errorType createdAt)
          Proc.ofExcept answer
          nextItemLoop q workerId n
      | .ok payload =>
        let now ← SqliteQueue.now
        let token ← newToken
        let answer : Except PyError (Option QueueRow) ←
          Proc.call (QueueOp.claim row workerId now token)
        match ← Proc.ofExcept answer with
        | none => nextItemLoop q workerId n
        | some updated => pure (some (some (updated.toItem payload)))

/-- `next_item`, for the worker id its argument or the host name gives. -/
def nextItem (q : SqliteQueue) (workerId : String) (rounds : ℕ) :
    QueueM (Option (Option QueueItem)) := do
  let now ← now
  let answer : Except PyError Unit ← Proc.call (QueueOp.reclaimStale q now)
  Proc.ofExcept answer
  nextItemLoop q workerId rounds

/-- `bind_transaction`. -/
def bindTransaction (itemId transactionId claimedBy claimToken : String) : QueueM Unit := do
  let answer : Except PyError Unit ←
    Proc.call (QueueOp.bindTransaction itemId transactionId claimedBy claimToken)
  Proc.ofExcept answer

/-- `renew_lease`. -/
def renewLease (itemId claimedBy claimToken : String) : QueueM Unit := do
  let now ← now
  let answer : Except PyError Unit ←
    Proc.call (QueueOp.renewLease itemId claimedBy claimToken now)
  Proc.ofExcept answer

/-- `complete`. -/
def complete (itemId claimedBy claimToken : String) : QueueM Unit := do
  let finishedAt ← now
  let answer : Except PyError Unit ←
    Proc.call (QueueOp.complete itemId claimedBy claimToken finishedAt)
  Proc.ofExcept answer

/-- `fail`: the retry count is read outside the write transaction. -/
def fail (q : SqliteQueue) (itemId claimedBy claimToken : String) (retry : Bool) :
    QueueM QueueAttemptOutcome := do
  let answer : Except PyError ℤ ← Proc.call (QueueOp.failRead itemId claimedBy claimToken)
  let readCount ← Proc.ofExcept answer
  let now ← now
  let answer : Except PyError QueueAttemptOutcome ←
    Proc.call (QueueOp.failCommit q itemId claimedBy claimToken retry readCount now)
  Proc.ofExcept answer

/-- `_force_transition`. -/
def forceTransition (q : SqliteQueue) (itemId : String) (requested : QueueStatus) (reason : String)
    (retry : Bool) : QueueM Unit := do
  if isBlank reason then
    throw (.valueError ("queue.admin.reason expected non-empty str; got str value=" ++
      pyRepr reason))
  let now ← now
  let answer : Except PyError Unit ←
    Proc.call (QueueOp.forceTransition q itemId requested reason retry now)
  Proc.ofExcept answer

/-- `force_complete`. -/
def forceComplete (q : SqliteQueue) (itemId reason : String) : QueueM Unit :=
  q.forceTransition itemId .successful reason false

/-- `force_fail`. -/
def forceFail (q : SqliteQueue) (itemId reason : String) (retry : Bool) : QueueM Unit :=
  q.forceTransition itemId .failed reason retry

end SqliteQueue

/-! ## Workers on one database -/

/-- A queue database, with the tokens that were handed out so far. -/
structure QueueSystem where
  db : QueueDb
  issued : List ClaimToken

/-- An empty queue. -/
def QueueSystem.init : QueueSystem := ⟨QueueDb.empty, []⟩

/-- The error of a connection that did not get its lock. -/
def PyError.IsOperational (err : PyError) : Prop := ∃ message, err = .operational message

/-- What a statement computes when the database lets it in. -/
abbrev QueueOp.Val : QueueOp → Type
  | .selectNext _ => Option QueueRow
  | .claim _ _ _ _ => Option QueueRow
  | .failRead _ _ _ => ℤ
  | .failCommit _ _ _ _ _ _ _ => QueueAttemptOutcome
  | _ => Unit

/-- The statement on the tables; a clock reading and a token do not touch them. -/
def QueueOp.run : (op : QueueOp) → QueueDb → Except PyError (op.Val × QueueDb)
  | .clock, db => .ok ((), db)
  | .newToken, db => .ok ((), db)
  | .add q item, db => (db.add q item).map fun db' => ((), db')
  | .reclaimStale q now, db => (db.reclaimStale q now).map fun db' => ((), db')
  | .selectNext now, db => .ok (db.selectNext now, db)
  | .quarantine selected now errorType createdAt, db =>
    .ok ((), db.quarantine selected now errorType createdAt)
  | .claim selected workerId now token, db => db.claim selected workerId now token
  | .bindTransaction itemId transactionId claimedBy claimToken, db =>
    (db.bindTransaction itemId transactionId claimedBy claimToken).map fun db' => ((), db')
  | .renewLease itemId claimedBy claimToken now, db =>
    (db.renewLease itemId claimedBy claimToken now).map fun db' => ((), db')
  | .complete itemId claimedBy claimToken finishedAt, db =>
    (db.complete itemId claimedBy claimToken finishedAt).map fun db' => ((), db')
  | .failRead itemId claimedBy claimToken, db =>
    (db.failRead itemId claimedBy claimToken).map fun n => (n, db)
  | .failCommit q itemId claimedBy claimToken retry readCount now, db =>
    db.failCommit q itemId claimedBy claimToken retry readCount now
  | .forceTransition q itemId requested reason retry now, db =>
    (db.forceTransition q itemId requested reason retry now).map fun db' => ((), db')

/-- The tables that a statement without an answer leaves. -/
lemma QueueOp.tables_of_map {x : Except PyError QueueDb} {db' : QueueDb}
    (h : x.map (fun db' => ((), db')) = .ok ((), db')) : x = .ok db' := by
  obtain ⟨d, hd, heq⟩ := Except.map_eq_ok.mp h
  cases heq
  exact hd

/-- A statement that reads or writes the tables: atomic, and possibly kept out by a lock. -/
def QueueOp.Writes (s : QueueSystem) (op : QueueOp) (r : Except PyError op.Val)
    (s' : QueueSystem) : Prop :=
  s'.issued = s.issued ∧ Atomically PyError.IsOperational op.run s.db r s'.db

/-- How the statements are answered. A token was never handed out before. -/
def QueueOp.Exec (s : QueueSystem) : (op : QueueOp) → op.Res → QueueSystem → Prop
  | .clock, _, s' => s' = s
  | .newToken, token, s' => token ∉ s.issued ∧ s' = ⟨s.db, token :: s.issued⟩
  | .add q item, r, s' => Writes s (.add q item) r s'
  | .reclaimStale q now, r, s' => Writes s (.reclaimStale q now) r s'
  | .selectNext now, r, s' => Writes s (.selectNext now) r s'
  | .quarantine row now errorType moment, r, s' =>
    Writes s (.quarantine row now errorType moment) r s'
  | .claim row workerId now token, r, s' => Writes s (.claim row workerId now token) r s'
  | .bindTransaction item tx worker token, r, s' =>
    Writes s (.bindTransaction item tx worker token) r s'
  | .renewLease item worker token now, r, s' => Writes s (.renewLease item worker token now) r s'
  | .complete item worker token now, r, s' => Writes s (.complete item worker token now) r s'
  | .failRead item worker token, r, s' => Writes s (.failRead item worker token) r s'
  | .failCommit q item worker token retry count now, r, s' =>
    Writes s (.failCommit q item worker token retry count now) r s'
  | .forceTransition q item status reason retry now, r, s' =>
    Writes s (.forceTransition q item status reason retry now) r s'

/-- The database as the machine that answers all workers. -/
def queueMachine : Machine QueueOp QueueOp.Res QueueSystem := ⟨QueueOp.Exec⟩

/-- What a call of a method returns. -/
inductive QueueAnswer
  | done
  | item (item : Option QueueItem)
  | outcome (outcome : QueueAttemptOutcome)
  | cutOff

/-- The program of a call, with what it returned or raised. -/
def QueueM.program {α : Type} (p : QueueM α) (f : α → QueueAnswer) :
    Prog QueueOp QueueOp.Res (Except PyError QueueAnswer) :=
  (p.start ()).bind fun r => .pure (r.1.map f)

/-- A call of `next_item`. -/
def SqliteQueue.nextItemCall (q : SqliteQueue) (workerId : String) (rounds : ℕ) :
    Prog QueueOp QueueOp.Res (Except PyError QueueAnswer) :=
  (q.nextItem workerId rounds).program fun r => r.elim .cutOff .item

/-- The calls a worker may make: any method with any arguments, by any queue object, where an item
is added fresh. -/
inductive QueueCall : Prog QueueOp QueueOp.Res (Except PyError QueueAnswer) → Prop
  | add (q : SqliteQueue) (item : QueueItem) (h : item.IsFresh) :
      QueueCall ((q.add item).program fun _ => .done)
  | nextItem (q : SqliteQueue) (workerId : String) (rounds : ℕ) :
      QueueCall (q.nextItemCall workerId rounds)
  | bindTransaction (itemId transactionId claimedBy claimToken : String) :
      QueueCall ((SqliteQueue.bindTransaction itemId transactionId claimedBy
        claimToken).program fun _ => .done)
  | renewLease (itemId claimedBy claimToken : String) :
      QueueCall ((SqliteQueue.renewLease itemId claimedBy claimToken).program fun _ => .done)
  | complete (itemId claimedBy claimToken : String) :
      QueueCall ((SqliteQueue.complete itemId claimedBy claimToken).program fun _ => .done)
  | fail (q : SqliteQueue) (itemId claimedBy claimToken : String) (retry : Bool) :
      QueueCall ((q.fail itemId claimedBy claimToken retry).program .outcome)
  | forceComplete (q : SqliteQueue) (itemId reason : String) :
      QueueCall ((q.forceComplete itemId reason).program fun _ => .done)
  | forceFail (q : SqliteQueue) (itemId reason : String) (retry : Bool) :
      QueueCall ((q.forceFail itemId reason retry).program fun _ => .done)

/-! ## What the methods send -/

/-- A statement with arguments a method gives it: items are added fresh, and an override asks for
a final status. -/
def QueueOp.Legit : QueueOp → Prop
  | .add _ item => item.IsFresh
  | .forceTransition _ _ requested _ _ _ => requested = .successful ∨ requested = .failed
  | _ => True

/-- The error of a result. -/
def Except.raised {ε α : Type} : Except ε α → Option ε
  | .ok _ => none
  | .error err => some err

/-- The error a statement that uses the tables was answered with. -/
def QueueOp.raised : (op : QueueOp) → op.Res → Option PyError
  | .clock, _ => none
  | .newToken, _ => none
  | .add _ _, r => r.raised
  | .reclaimStale _ _, r => r.raised
  | .selectNext _, r => r.raised
  | .quarantine _ _ _ _, r => r.raised
  | .claim _ _ _ _, r => r.raised
  | .bindTransaction _ _ _ _, r => r.raised
  | .renewLease _ _ _ _, r => r.raised
  | .complete _ _ _ _, r => r.raised
  | .failRead _ _ _, r => r.raised
  | .failCommit _ _ _ _ _ _ _, r => r.raised
  | .forceTransition _ _ _ _ _ _, r => r.raised

/-- No statement was answered with an error so far. -/
def Undisturbed (evs : List (Event QueueOp QueueOp.Res)) : Prop :=
  ∀ ev ∈ evs, ev.op.raised ev.res = none

/-- What a call observes when it sends a statement: its arguments are legitimate, no statement
raised before, and a claim is made by `next_item` under the worker's name, with the token it has
just created. -/
structure QueueCall.Sends (prog : Prog QueueOp QueueOp.Res (Except PyError QueueAnswer))
    (evs : List (Event QueueOp QueueOp.Res)) (op : QueueOp) : Prop where
  legit : op.Legit
  undisturbed : Undisturbed evs
  claim : ∀ selected workerId now token, op = .claim selected workerId now token →
    (∃ (q : SqliteQueue) (rounds : ℕ), prog = q.nextItemCall workerId rounds) ∧
      evs.getLast? = some ⟨.newToken, token⟩

/-- What a call returns: the error its last statement raised, or what that statement answered. -/
structure QueueCall.Returns (prog : Prog QueueOp QueueOp.Res (Except PyError QueueAnswer))
    (a : Except PyError QueueAnswer) (evs : List (Event QueueOp QueueOp.Res)) : Prop where
  raised : ∀ ev ∈ evs, ∀ err, ev.op.raised ev.res = some err → a = .error err
  item : ∀ item, a = .ok (.item (some item)) → ∃ selected workerId now token row payload,
    evs.getLast? = some ⟨.claim selected workerId now token, .ok (some row)⟩ ∧
      item = row.toItem payload
  outcome : ∀ outcome, a = .ok (.outcome outcome) → ∃ q itemId claimedBy claimToken retry count now,
    evs.getLast? = some ⟨.failCommit q itemId claimedBy claimToken retry count now, .ok outcome⟩

section Calls

variable {prog : Prog QueueOp QueueOp.Res (Except PyError QueueAnswer)}
  {evs : List (Event QueueOp QueueOp.Res)} {ev : Event QueueOp QueueOp.Res}

/-- A call begins undisturbed. -/
lemma undisturbed_nil : Undisturbed [] := fun _ h => absurd h List.not_mem_nil

/-- A statement that does not raise leaves a call undisturbed. -/
lemma Undisturbed.append (h : Undisturbed evs) {e : Event QueueOp QueueOp.Res}
    (he : e.op.raised e.res = none) : Undisturbed (evs ++ [e]) := by
  intro ev hev
  rcases List.mem_append.mp hev with hev | hev
  · exact h ev hev
  · rw [List.mem_singleton.mp hev]
    exact he

namespace QueueCall

/-- A statement other than a claim needs legitimate arguments only. -/
lemma Sends.of_ne {op : QueueOp} (h : Undisturbed evs) (hlegit : op.Legit)
    (hne : ∀ selected workerId now token, op ≠ .claim selected workerId now token) :
    Sends prog evs op :=
  ⟨hlegit, h, fun selected workerId now token heq => absurd heq (hne selected workerId now token)⟩

/-- A call that was not disturbed may raise an error of its own. -/
lemma Returns.error (h : Undisturbed evs) (err : PyError) : Returns prog (.error err) evs :=
  ⟨fun ev hev err' he => absurd ((h ev hev).symm.trans he) (by simp), by simp, by simp⟩

/-- A call raises what its statement raised. -/
lemma Returns.raises (h : Undisturbed evs) {err : PyError} (hev : ev.op.raised ev.res = some err) :
    Returns prog (.error err) (evs ++ [ev]) := by
  refine ⟨fun e he err' herr => ?_, by simp, by simp⟩
  rcases List.mem_append.mp he with he | he
  · rw [h e he] at herr
    cases herr
  · rw [List.mem_singleton.mp he, hev] at herr
    cases herr
    rfl

/-- A call that returns nothing of interest. -/
lemma Returns.plain (h : Undisturbed evs) {a : QueueAnswer} (hitem : ∀ item, a ≠ .item (some item))
    (houtcome : ∀ outcome, a ≠ .outcome outcome) : Returns prog (.ok a) evs :=
  ⟨fun ev hev err he => absurd ((h ev hev).symm.trans he) (by simp),
    fun item heq => absurd (Except.ok.inj heq) (hitem item),
    fun outcome heq => absurd (Except.ok.inj heq) (houtcome outcome)⟩

end QueueCall

/-- The weakest precondition of a call is that of its method. -/
lemma QueueM.program_wp {α γ : Type} {M : Monitor QueueOp QueueOp.Res γ} {p : QueueM α}
    {f : α → QueueAnswer} {Q : Except PyError QueueAnswer → γ → Prop} {g : γ} :
    (p.program f).wp M Q g ↔
      p.wp M (fun a _ => Q (.ok (f a))) (fun err _ => Q (.error err)) () g := by
  rw [QueueM.program, Prog.wp_bind]
  constructor
  · intro h
    refine Prog.wp_mono h ?_
    rintro ⟨_ | _, _⟩ g' hr <;> exact hr
  · intro h
    refine Prog.wp_mono h ?_
    rintro ⟨_ | _, _⟩ g' hr <;> exact hr

/-- The monitor of a call. -/
abbrev QueueCall.monitor (prog : Prog QueueOp QueueOp.Res (Except PyError QueueAnswer)) :
    Monitor QueueOp QueueOp.Res (List (Event QueueOp QueueOp.Res)) :=
  traceMonitor (QueueCall.Sends prog) fun _ _ _ => True

/-- What a call sends and returns is what its method sends and returns. -/
lemma QueueM.wp_program {α : Type} {p : QueueM α} {f : α → QueueAnswer}
    (h : p.wp (QueueCall.monitor prog) (fun a _ evs => QueueCall.Returns prog (.ok (f a)) evs)
      (fun err _ evs => QueueCall.Returns prog (.error err) evs) () evs) :
    (p.program f).wp (QueueCall.monitor prog) (QueueCall.Returns prog) evs :=
  QueueM.program_wp.mpr h

/-- The loop of `next_item` claims with its own tokens. -/
lemma SqliteQueue.wp_nextItemLoop (q : SqliteQueue) (workerId : String) (rounds n : ℕ)
    (hprog : prog = q.nextItemCall workerId rounds) (h : Undisturbed evs) :
    (q.nextItemLoop workerId n).wp (QueueCall.monitor prog)
      (fun a _ evs => QueueCall.Returns prog (.ok (a.elim .cutOff .item)) evs)
      (fun err _ evs => QueueCall.Returns prog (.error err) evs) () evs := by
  induction n generalizing evs with
  | zero => exact QueueCall.Returns.plain h (by simp) (by simp)
  | succ n ih =>
    simp only [nextItemLoop, Proc.wp_bind, now, newToken, Proc.wp_call, Proc.wp_ofExcept]
    refine ⟨QueueCall.Sends.of_ne h trivial (by simp), fun moment _ => ?_⟩
    replace h : Undisturbed (evs ++ [⟨.clock, moment⟩]) := h.append rfl
    refine ⟨QueueCall.Sends.of_ne h trivial (by simp), fun answer _ => ?_⟩
    cases answer with
    | error err => exact QueueCall.Returns.raises h rfl
    | ok row =>
      replace h := h.append (e := ⟨.selectNext moment, .ok row⟩) rfl
      cases row with
      | none => exact QueueCall.Returns.plain h (by simp) (by simp)
      | some row =>
        simp only [Proc.wp_bind, Proc.wp_ofExcept]
        split
        · split
          · split
            · exact QueueCall.Returns.error h _
            · simp only [Proc.wp_bind, Proc.wp_call, Proc.wp_ofExcept]
              refine ⟨QueueCall.Sends.of_ne h trivial (by simp), fun now _ => ?_⟩
              replace h := h.append (e := ⟨.clock, now⟩) rfl
              refine ⟨QueueCall.Sends.of_ne h trivial (by simp), fun createdAt _ => ?_⟩
              replace h := h.append (e := ⟨.clock, createdAt⟩) rfl
              refine ⟨QueueCall.Sends.of_ne h trivial (by simp), fun answer _ => ?_⟩
              cases answer with
              | error err => exact QueueCall.Returns.raises h rfl
              | ok => exact ih (h.append rfl)
          · simp only [Proc.wp_bind, Proc.wp_call, Proc.wp_ofExcept]
            refine ⟨QueueCall.Sends.of_ne h trivial (by simp), fun now _ => ?_⟩
            replace h := h.append (e := ⟨.clock, now⟩) rfl
            refine ⟨QueueCall.Sends.of_ne h trivial (by simp), fun token _ => ?_⟩
            replace h := h.append (e := ⟨.newToken, token⟩) rfl
            refine ⟨⟨trivial, h, ?_⟩, fun answer _ => ?_⟩
            · rintro selected workerId now token ⟨⟩
              exact ⟨⟨q, rounds, hprog⟩, List.getLast?_concat⟩
            · cases answer with
              | error err => exact QueueCall.Returns.raises h rfl
              | ok updated =>
                replace h := h.append (e := ⟨.claim row workerId now token, .ok updated⟩) rfl
                cases updated with
                | none => exact ih h
                | some updated =>
                  refine ⟨fun ev hev err he => absurd ((h ev hev).symm.trans he) (by simp), ?_,
                    by simp⟩
                  rintro item ⟨⟩
                  exact ⟨_, _, _, _, _, _, List.getLast?_concat, rfl⟩
        · exact QueueCall.Returns.error h _

/-- **What every call sends and returns.** -/
theorem QueueCall.wp (h : QueueCall prog) :
    prog.wp (QueueCall.monitor prog) (QueueCall.Returns prog) [] := by
  have hnil := undisturbed_nil
  cases h with
  | add q item hfresh =>
    refine QueueM.wp_program ⟨QueueCall.Sends.of_ne hnil hfresh (by simp), fun answer _ => ?_⟩
    cases answer with
    | error err => exact QueueCall.Returns.raises hnil rfl
    | ok => exact QueueCall.Returns.plain (hnil.append rfl) (by simp) (by simp)
  | nextItem q workerId rounds =>
    refine QueueM.wp_program ?_
    simp only [SqliteQueue.nextItem, SqliteQueue.now, Proc.wp_bind, Proc.wp_call, Proc.wp_ofExcept]
    refine ⟨QueueCall.Sends.of_ne hnil trivial (by simp), fun now _ => ?_⟩
    have hnow := hnil.append (e := ⟨.clock, now⟩) rfl
    refine ⟨QueueCall.Sends.of_ne hnow trivial (by simp), fun answer _ => ?_⟩
    cases answer with
    | error err => exact QueueCall.Returns.raises hnow rfl
    | ok => exact q.wp_nextItemLoop workerId rounds rounds rfl (hnow.append rfl)
  | bindTransaction itemId transactionId claimedBy claimToken =>
    refine QueueM.wp_program ⟨QueueCall.Sends.of_ne hnil trivial (by simp), fun answer _ => ?_⟩
    cases answer with
    | error err => exact QueueCall.Returns.raises hnil rfl
    | ok => exact QueueCall.Returns.plain (hnil.append rfl) (by simp) (by simp)
  | renewLease itemId claimedBy claimToken =>
    refine QueueM.wp_program ⟨QueueCall.Sends.of_ne hnil trivial (by simp), fun now _ => ?_⟩
    have hnow := hnil.append (e := ⟨.clock, now⟩) rfl
    refine ⟨QueueCall.Sends.of_ne hnow trivial (by simp), fun answer _ => ?_⟩
    cases answer with
    | error err => exact QueueCall.Returns.raises hnow rfl
    | ok => exact QueueCall.Returns.plain (hnow.append rfl) (by simp) (by simp)
  | complete itemId claimedBy claimToken =>
    refine QueueM.wp_program ⟨QueueCall.Sends.of_ne hnil trivial (by simp), fun now _ => ?_⟩
    have hnow := hnil.append (e := ⟨.clock, now⟩) rfl
    refine ⟨QueueCall.Sends.of_ne hnow trivial (by simp), fun answer _ => ?_⟩
    cases answer with
    | error err => exact QueueCall.Returns.raises hnow rfl
    | ok => exact QueueCall.Returns.plain (hnow.append rfl) (by simp) (by simp)
  | fail q itemId claimedBy claimToken retry =>
    refine QueueM.wp_program ?_
    simp only [SqliteQueue.fail, SqliteQueue.now, Proc.wp_bind, Proc.wp_call, Proc.wp_ofExcept]
    refine ⟨QueueCall.Sends.of_ne hnil trivial (by simp), fun answer _ => ?_⟩
    cases answer with
    | error err => exact QueueCall.Returns.raises hnil rfl
    | ok count =>
      have hread := hnil.append (e := ⟨.failRead itemId claimedBy claimToken, .ok count⟩) rfl
      refine ⟨QueueCall.Sends.of_ne hread trivial (by simp), fun now _ => ?_⟩
      have hnow := hread.append (e := ⟨.clock, now⟩) rfl
      refine ⟨QueueCall.Sends.of_ne hnow trivial (by simp), fun answer _ => ?_⟩
      cases answer with
      | error err => exact QueueCall.Returns.raises hnow rfl
      | ok outcome =>
        have hlast := hnow.append
          (e := ⟨.failCommit q itemId claimedBy claimToken retry count now, .ok outcome⟩) rfl
        refine ⟨fun ev hev err he => absurd ((hlast ev hev).symm.trans he) (by simp), by simp, ?_⟩
        rintro outcome ⟨⟩
        exact ⟨_, _, _, _, _, _, _, List.getLast?_concat⟩
  | forceComplete q itemId reason =>
    refine QueueM.wp_program ?_
    unfold SqliteQueue.forceComplete SqliteQueue.forceTransition
    split
    · exact QueueCall.Returns.error hnil _
    · refine ⟨QueueCall.Sends.of_ne hnil trivial (by simp), fun now _ => ?_⟩
      have hnow := hnil.append (e := ⟨.clock, now⟩) rfl
      refine ⟨QueueCall.Sends.of_ne hnow (Or.inl rfl) (by simp), fun answer _ => ?_⟩
      cases answer with
      | error err => exact QueueCall.Returns.raises hnow rfl
      | ok => exact QueueCall.Returns.plain (hnow.append rfl) (by simp) (by simp)
  | forceFail q itemId reason retry =>
    refine QueueM.wp_program ?_
    unfold SqliteQueue.forceFail SqliteQueue.forceTransition
    split
    · exact QueueCall.Returns.error hnil _
    · refine ⟨QueueCall.Sends.of_ne hnil trivial (by simp), fun now _ => ?_⟩
      have hnow := hnil.append (e := ⟨.clock, now⟩) rfl
      refine ⟨QueueCall.Sends.of_ne hnow (Or.inr rfl) (by simp), fun answer _ => ?_⟩
      cases answer with
      | error err => exact QueueCall.Returns.raises hnow rfl
      | ok => exact QueueCall.Returns.plain (hnow.append rfl) (by simp) (by simp)

end Calls

/-! ## Runs of the queue -/

/-- A step of a pool of workers. -/
abbrev QueueLabel := PoolLabel QueueOp QueueOp.Res (Except PyError QueueAnswer)

/-- Workers on one queue. -/
abbrev QueuePool := Pool QueueOp QueueOp.Res QueueSystem (Except PyError QueueAnswer)

/-- The runs of any number of workers from an empty queue. -/
def QueueRun (t : List QueueLabel) (P : QueuePool) : Prop :=
  queueMachine.Run QueueCall ⟨QueueSystem.init, fun _ => .pure (.ok .done)⟩ t P

section Runs

variable {t t' : List QueueLabel} {P P' : QueuePool}

/-- What the workers sent and what they have left. -/
lemma QueueRun.sends (h : QueueRun t P) :
    (∀ t₁ p ev t₂, t = t₁ ++ .answer p ev :: t₂ → ∃ prog evs, callOf p t₁ = some (prog, evs) ∧
      QueueCall.Sends prog evs ev.op) ∧
    (∀ p prog evs, callOf p t = some (prog, evs) →
      (P.procs p).wp (QueueCall.monitor prog) (QueueCall.Returns prog) evs) ∧
    ∀ p, callOf p t = none → P.procs p = .pure (.ok .done) := by
  have hhonest : ∀ prog evs, (QueueCall.monitor prog).Honest [] evs := fun prog evs =>
    honest_of_forall (fun _ _ _ => trivial) _ _
  obtain ⟨hpre, hleft⟩ := Machine.Run.calls QueueCall.Sends (fun _ _ _ _ => True) QueueCall.Returns
    (fun _ hcall => hcall.wp) h fun _ => ⟨_, rfl⟩
  refine ⟨fun t₁ p ev t₂ ht => ?_, fun p prog evs hcur => ?_, fun p hcur => ?_⟩
  · obtain ⟨prog, evs, hcur, hsends⟩ := hpre t₁ p ev t₂ ht
    exact ⟨prog, evs, hcur, hsends (hhonest prog evs)⟩
  · have hp := hleft p
    rw [hcur] at hp
    exact hp (hhonest prog evs)
  · have hp := hleft p
    rw [hcur] at hp
    exact hp

/-- What legitimate statements keep holds from one state of a run to a later one. -/
lemma QueueRun.later (h : QueueRun t P) (h' : queueMachine.Run QueueCall P t' P')
    {I : QueueSystem → Prop}
    (hexec : ∀ s o r s', o.Legit → QueueOp.Exec s o r s' → I s → I s') (hI : I P.shared) :
    I P'.shared := by
  refine h'.induct (I := fun _ s => I s) hI (fun _ _ _ _ _ _ hI => hI) ?_
  intro t₁ p o r t₂ s s' ht hx hI
  have hwhole : QueueRun (t ++ t') P' := Machine.Run.append h h'
  obtain ⟨_, _, _, hsends⟩ := hwhole.sends.1 (t ++ t₁) p ⟨o, r⟩ t₂ (by simp [ht])
  exact hexec s o r s' hsends.legit hx hI

end Runs

/-- What a statement does to the tables: nothing, or what it computed. -/
lemma QueueOp.Exec.db {s s' : QueueSystem} {op : QueueOp} {r : op.Res} (h : op.Exec s r s') :
    s'.db = s.db ∨ ∃ v, op.run s.db = .ok (v, s'.db) := by
  have hwrites : ∀ {op : QueueOp} {r : Except PyError op.Val}, op.Writes s r s' →
      s'.db = s.db ∨ ∃ v, op.run s.db = .ok (v, s'.db) := by
    intro op r hw
    rcases hw.2.cases with heq | ⟨v, -, hrun⟩
    · exact Or.inl heq
    · exact Or.inr ⟨v, hrun⟩
  cases op with
  | clock =>
    cases h
    exact Or.inl rfl
  | newToken =>
    obtain ⟨-, rfl⟩ := h
    exact Or.inl rfl
  | _ => exact hwrites h

/-- Only a new token adds to the tokens that were handed out. -/
lemma QueueOp.Exec.issued {s s' : QueueSystem} {op : QueueOp} {r : op.Res} (h : op.Exec s r s')
    (hop : op ≠ .newToken) : s'.issued = s.issued := by
  cases op with
  | clock => rw [h]
  | newToken => exact absurd rfl hop
  | _ => exact h.1

/-! ## Runs that can be computed -/

/-- The token that is handed out after `n` others: a text of `n + 1` letters. -/
def ClaimToken.ofNumber (n : ℕ) : ClaimToken :=
  ⟨String.ofList (List.replicate (n + 1) 'a'), fun h => by
    have := congrArg String.length h
    simp at this⟩

/-- The length of the text of a numbered token. -/
lemma ClaimToken.length_ofNumber (n : ℕ) : (ofNumber n).text.length = n + 1 := by
  simp [ofNumber]

/-- Different numbers give different tokens. -/
lemma ClaimToken.ofNumber_injective : Function.Injective ofNumber := by
  intro n m h
  have hlength := congrArg (fun token : ClaimToken => token.text.length) h
  simp only [length_ofNumber] at hlength
  exact Nat.succ.inj hlength

/-- A database that lets everybody in, with a clock at a fixed reading and numbered tokens. -/
def QueueOp.answer (moment : Datetime) (s : QueueSystem) : (op : QueueOp) → op.Res × QueueSystem :=
  let commit := fun op : QueueOp =>
    match op.run s.db with
    | .ok (v, db) => ((.ok v : Except PyError op.Val), (⟨db, s.issued⟩ : QueueSystem))
    | .error err => (.error err, s)
  fun
  | .clock => (moment, s)
  | .newToken =>
    (.ofNumber s.issued.length, ⟨s.db, .ofNumber s.issued.length :: s.issued⟩)
  | .add q item => commit (.add q item)
  | .reclaimStale q now => commit (.reclaimStale q now)
  | .selectNext now => commit (.selectNext now)
  | .quarantine row now errorType createdAt => commit (.quarantine row now errorType createdAt)
  | .claim row workerId now token => commit (.claim row workerId now token)
  | .bindTransaction item tx worker token => commit (.bindTransaction item tx worker token)
  | .renewLease item worker token now => commit (.renewLease item worker token now)
  | .complete item worker token now => commit (.complete item worker token now)
  | .failRead item worker token => commit (.failRead item worker token)
  | .failCommit q item worker token retry count now =>
    commit (.failCommit q item worker token retry count now)
  | .forceTransition q item status reason retry now =>
    commit (.forceTransition q item status reason retry now)

/-- The tokens handed out so far are no longer than their number. -/
def QueueSystem.ShortTokens (s : QueueSystem) : Prop :=
  ∀ token ∈ s.issued, token.text.length ≤ s.issued.length

/-- These are answers of the machine. -/
lemma QueueOp.exec_answer (moment : Datetime) (s : QueueSystem) (op : QueueOp)
    (h : s.ShortTokens) :
    queueMachine.exec s op (op.answer moment s).1 (op.answer moment s).2 ∧
      (op.answer moment s).2.ShortTokens := by
  have hcommit : ∀ op : QueueOp,
      op.Writes s
        (match op.run s.db with
          | .ok (v, db) => ((.ok v : Except PyError op.Val), (⟨db, s.issued⟩ : QueueSystem))
          | .error err => (.error err, s)).1
        (match op.run s.db with
          | .ok (v, db) => ((.ok v : Except PyError op.Val), (⟨db, s.issued⟩ : QueueSystem))
          | .error err => (.error err, s)).2 ∧
      (match op.run s.db with
        | .ok (v, db) => ((.ok v : Except PyError op.Val), (⟨db, s.issued⟩ : QueueSystem))
        | .error err => (.error err, s)).2.ShortTokens := by
    intro op
    cases hrun : op.run s.db with
    | ok vdb => exact ⟨⟨rfl, .commit hrun⟩, h⟩
    | error err => exact ⟨⟨rfl, .raise hrun⟩, h⟩
  cases op with
  | clock => exact ⟨rfl, h⟩
  | newToken =>
    have hlength := ClaimToken.length_ofNumber s.issued.length
    refine ⟨⟨fun hmem => ?_, rfl⟩, fun token hmem => ?_⟩
    · have hle : (ClaimToken.ofNumber s.issued.length).text.length ≤ s.issued.length := h _ hmem
      omega
    · rcases List.mem_cons.mp hmem with rfl | hmem
      · exact hlength.le
      · exact (h token hmem).trans (Nat.le_succ _)
  | _ => exact hcommit _

/-- A queue without delivery delays, whose payloads are all read as the empty object. -/
def plainQueue : SqliteQueue where
  leaseTimeout := 30
  maxRetries := 3
  retryAvailableAt _ _ := .ok none
  jsonDumps _ := "{}"
  jsonLoads _ := .ok (.dict [])
  leaseTimeout_pos := by decide

/-- A fresh item. -/
def plainItem : QueueItem where
  reference := "T"
  payload := .dict []
  id := "i"
  status := .pending
  retryCount := 0
  createdAt := ⟨0, some 0⟩
  claimedBy := ""
  claimedAt := none
  claimToken := ""
  transactionId := ""
  availableAt := none

/-- The pool of an empty queue on which no call has begun. -/
def idlePool : QueuePool :=
  ⟨QueueSystem.init, fun _ => .pure (.ok .done)⟩

/-- The pool after process 0 has added an item. -/
def addedPool : QueuePool :=
  idlePool.solve (QueueOp.answer ⟨0, some 0⟩) 0
    ((plainQueue.add plainItem).program fun _ => .done)

/-- The pool after process 0 has added an item and process 1 has claimed it. -/
def claimedPool : QueuePool :=
  addedPool.solve (QueueOp.answer ⟨0, some 0⟩) 1
    (plainQueue.nextItemCall "w" 1)

/-- That pool is reached by a run. -/
lemma claimedPool_run : (∃ t, QueueRun t claimedPool) ∧ claimedPool.shared.ShortTokens := by
  have hidle : QueueRun [] idlePool := .nil _
  have hnone : idlePool.shared.ShortTokens := by
    simp [QueueSystem.ShortTokens, QueueSystem.init, idlePool]
  obtain ⟨hadd, hshort⟩ := Machine.Run.solve (QueueOp.exec_answer ⟨0, some 0⟩) hidle hnone
    (p := 0) rfl (QueueCall.add plainQueue plainItem ⟨rfl, rfl, rfl, rfl⟩)
  obtain ⟨hnext, hshort⟩ := Machine.Run.solve (QueueOp.exec_answer ⟨0, some 0⟩) hadd hshort
    (p := 1) rfl (QueueCall.nextItem plainQueue "w" 1)
  exact ⟨⟨_, hnext⟩, hshort⟩
