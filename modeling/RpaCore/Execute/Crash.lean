import RpaCore.Execute.Basic
import RpaCore.Recovery.Halted

set_option relaxedAutoImplicit false
set_option autoImplicit false

/-!
# Executions that crash

An execution with a transaction database may stop anywhere. What it has saved by then is loaded and
resumed, and another execution begins, which may stop again. A step whose body has ended with a
result is never executed again, in any number of executions, once a snapshot was saved after it; and
if none was, what is resumed has the step pending.

## Main definitions

* `Execute.Session` — an execution that stops anywhere, and the database that it leaves.
* `Execute.Resumes` — executions that each resume what is stored.
* `Execute.Holds` — the database stores results.

## Main results

* `Execute.saved_result_kept` — a result that was saved is never worked out again.
* `Execute.result_repeated_iff` — the results that a crash loses.
* `Execute.returned_stored` — what an execution that returns has stored.
-/

namespace Landmark

/-- **A step has a result** after some landmarks: it had one before them, or its body has ended with
one. -/
def HasResult (again : Bool) (kept : ℤ → Prop) (p : List Landmark) (o : ℤ) : Prop :=
  kept o ∨ ∃ x, Landmark.executed x ∈ p ∧ x.order = o ∧ Ending.IsFinal again x.ending

/-- Results are kept: a snapshot that is saved has all of them, and no step is executed that has
one. -/
def Keeps (again : Bool) (kept : ℤ → Prop) (p : List Landmark) : Landmark → Prop
  | .executed x => ¬ HasResult again kept p x.order
  | .saved snap => ∀ o, HasResult again kept p o → snap.FinalAt again o

/-- The snapshot that a landmark has saved. -/
def savedTx : Landmark → Option Transaction
  | .executed _ => none
  | .saved tx => some tx

end Landmark

/-- The snapshots that were saved. -/
def savedOf (p : List Landmark) : List Transaction := p.filterMap Landmark.savedTx

/-- The saved snapshots are those of their landmarks. -/
lemma mem_savedOf {p : List Landmark} {tx : Transaction} :
    tx ∈ savedOf p ↔ Landmark.saved tx ∈ p := by
  rw [savedOf, List.mem_filterMap]
  constructor
  · rintro ⟨_ | tx', hmem, hsaved⟩
    · cases hsaved
    · cases hsaved
      exact hmem
  · exact fun hmem => ⟨_, hmem, rfl⟩

/-! ## Landmarks of a run -/

namespace Engine

variable {e : Engine} {ctx : RunContext} {again : Bool} {kept : ℤ → Prop} {tx : Transaction}
  {a t : EngineTrace} {p q : List Landmark} {l : Landmark} {x : Execution}

/-- The event of a landmark. -/
lemma landmarks_split (h : landmarks a = p ++ l :: q) :
    ∃ a₁ ev a₂, a = a₁ ++ ev :: a₂ ∧ landmarks a₁ = p ∧ landmark ev = some l := by
  obtain ⟨a₁, a', rfl, hp, hrest⟩ := List.filterMap_eq_append_iff.mp h
  obtain ⟨a₂, ev, a₃, rfl, hnone, hev, -⟩ := List.filterMap_eq_cons_iff.mp hrest
  refine ⟨a₁ ++ a₂, ev, a₃, by simp, ?_, hev⟩
  rw [landmarks, List.filterMap_append, hp, List.filterMap_eq_nil_iff.mpr hnone, List.append_nil]

/-- The snapshots that were saved are among those that the run has shown, in order. -/
lemma savedOf_landmarks (t : EngineTrace) : (savedOf (landmarks t)).Sublist (snapshots t) := by
  induction t with
  | nil => exact List.Sublist.slnil
  | cons ev t ih =>
    obtain ⟨tx | ⟨st, tx⟩ | directory, r⟩ := ev
    · cases r with
      | none => exact ih.cons_cons tx
      | some err => exact ih.cons tx
    · exact ih
    · exact ih

/-- A body that a landmark tells of is an execution of the run. -/
lemma mem_executionsOf (h : Landmark.executed x ∈ landmarks t) : x ∈ executionsOf t := by
  obtain ⟨⟨tx | ⟨st, tx⟩ | directory, r⟩, hmem, hev⟩ := List.mem_filterMap.mp h
  · cases r <;> cases hev
  · cases hev
    exact List.mem_filterMap.mpr ⟨_, hmem, rfl⟩
  · cases hev

/-- What holds at every call of a run holds at the event of a landmark. -/
lemma landmark_pre {pre : EngineTrace → EngineOp → Prop}
    {Q : Except PyError Unit × EngineState → EngineTrace → Prop}
    (hwp : (e.run ctx tx).wp (traceMonitor pre fun _ _ _ => True) Q [])
    (env : EngineTrace → (op : EngineOp) → op.Res) (ha : a <+: ((e.run ctx tx).run env []).2)
    (h : landmarks a = p ++ l :: q) :
    ∃ a₁ ev, landmarks a₁ = p ∧ landmark ev = some l ∧ pre a₁ ev.op := by
  obtain ⟨a₁, ev, a₂, rfl, hp, hev⟩ := landmarks_split h
  obtain ⟨b, hb⟩ := ha
  refine ⟨a₁, ev, hp, hev, (Prog.wp_run_trace env hwp fun _ _ => trivial).1 a₁ ev (a₂ ++ b) ?_⟩
  rw [← hb, List.append_assoc, List.cons_append]

/-- What a run keeps, by its landmarks. -/
lemma keeps_landmarks (hgiven : tx.Given) (hkept : ∀ o, kept o → tx.FinalAt again o)
    (env : EngineTrace → (op : EngineOp) → op.Res) (ha : a <+: ((e.run ctx tx).run env []).2)
    (h : landmarks a = p ++ l :: q) : l.Keeps again kept p := by
  obtain ⟨a₁, ev, rfl, hev, hpre⟩ := landmark_pre (wp_body_keeping e ctx hgiven hkept) env ha h
  have hresult : ∀ o, Landmark.HasResult again kept (landmarks a₁) o →
      HasResult again kept a₁ o :=
    fun o ho => ho.imp_right fun ⟨x, hx, hfinal⟩ => Or.inr ⟨x, mem_executionsOf hx, hfinal⟩
  obtain ⟨tx | ⟨st, tx⟩ | directory, r⟩ := ev
  · cases r with
    | none =>
      cases hev
      exact fun o ho => hpre o (hresult o ho)
    | some err => cases hev
  · cases hev
    exact fun ho => hpre (hresult _ ho)
  · cases hev

/-- A step with a result is not executed. -/
lemma final_not_executed {o : ℤ} (hgiven : tx.Given) (hfinal : tx.FinalAt again o) (e : Engine)
    (ctx : RunContext) (env : EngineTrace → (op : EngineOp) → op.Res) :
    ∀ y ∈ executionsOf ((e.run ctx tx).run env []).2, y.order ≠ o := by
  rintro y hy rfl
  obtain ⟨ev, hmem, hev⟩ := List.mem_filterMap.mp hy
  obtain ⟨t₁, t₂, hsplit⟩ := List.append_of_mem hmem
  have hkept : ∀ o, o = y.order → tx.FinalAt again o := by
    rintro _ rfl
    exact hfinal
  have hpre := (Prog.wp_run_trace env (wp_body_keeping e ctx hgiven hkept)
    fun _ _ => trivial).1 t₁ ev t₂ hsplit
  obtain ⟨tx | ⟨st, tx⟩ | directory, r⟩ := ev
  · cases hev
  · cases hev
    exact hpre (Or.inl rfl)
  · cases hev

/-- The snapshot before a body is called was saved, with its step in progress. -/
lemma announced_landmarks (hc : ctx.hasCheckpoint = true)
    (env : EngineTrace → (op : EngineOp) → op.Res) (ha : a <+: ((e.run ctx tx).run env []).2)
    (h : landmarks a = p ++ .executed x :: q) :
    x.step ∈ x.tx.steps ∧ x.step.status = .inProgress ∧ ∃ p₀, p = p₀ ++ [.saved x.tx] := by
  obtain ⟨a₁, ev, rfl, hev, hpre⟩ :=
    landmark_pre (WriteAhead.wp_body_raises (s := ⟨tx, 0⟩) hc) env ha h
  obtain ⟨tx | ⟨st, tx⟩ | directory, r⟩ := ev
  · cases r <;> cases hev
  · cases hev
    obtain ⟨⟨a₀, rfl⟩, hmem, hstatus, -, -⟩ := hpre.1
    exact ⟨hmem, hstatus, landmarks a₀, by simp [landmarks, landmark]⟩
  · cases hev

end Engine

namespace Execute

/-! ## Sessions -/

/-- **An execution that stops anywhere**: `w` are its events up to there. Of its transaction the
database has been given what it has saved by then; other transactions may have been saved too. -/
structure Session (c : Execute) (tx : Transaction)
    (env : ExecuteTrace → (op : ExecuteOp) → op.Res) (w : ExecuteTrace) (db db' : TransactionDb) :
    Prop where
  hasTransactionDb : c.hasTransactionDb = true
  cut : w <+: (c.run tx env).2
  saves : ∃ calls, SaveRun db calls db' ∧ savedStates tx.id calls = savedOf (landmarks w)

/-- **Executions that follow each other**: each resumes the transaction with the given id as it is
stored, and stops anywhere. If `again` is false, none of them retries business failures. -/
inductive Resumes (again : Bool) (id : String) :
    TransactionDb → List ExecuteTrace → TransactionDb → Prop
  | nil (db : TransactionDb) : Resumes again id db [] db
  | cons {db d db' : TransactionDb} {steps : List Step} {f : Bool} {identity : Option String}
      {now : Datetime} {tx : Transaction} {c : Execute}
      {env : ExecuteTrace → (op : ExecuteOp) → op.Res} {w : ExecuteTrace} {ws : List ExecuteTrace}
      (resumed : db.resumeTransaction id steps f identity now = .ok tx)
      (retries : f = true → again = true) (session : Session c tx env w db d)
      (rest : Resumes again id d ws db') : Resumes again id db (w :: ws) db'

/-- **The database stores results**: the snapshot that was saved last has them. -/
structure Holds (again : Bool) (kept : ℤ → Prop) (id : String) (db : TransactionDb) : Prop where
  consistent : db.Consistent
  stored : ∃ snap, db.LastSaved id (some snap) ∧ snap.Sequential ∧ Engine.Shows snap ∧
    ∀ o, kept o → snap.FinalAt again o

variable {c : Execute} {env : ExecuteTrace → (op : ExecuteOp) → op.Res} {w : ExecuteTrace}
  {tx snap : Transaction} {db db' : TransactionDb} {again f : Bool} {kept : ℤ → Prop} {id : String}
  {p q : List Landmark} {l : Landmark} {x : Execution} {steps : List Step}
  {identity : Option String} {now : Datetime} {o : ℤ}

/-- What a session keeps. -/
lemma Session.keeps (h : Session c tx env w db db') (hgiven : tx.Given)
    (hkept : ∀ o, kept o → tx.FinalAt again o) (hw : landmarks w = p ++ l :: q) :
    l.Keeps again kept p := by
  obtain ⟨env', a, ha, hsame⟩ := run_landmarks h.hasTransactionDb h.cut
  exact Engine.keeps_landmarks hgiven hkept env' ha (hsame.symm.trans hw)

/-- The snapshot before a body is called was saved. -/
lemma Session.announced (h : Session c tx env w db db')
    (hw : landmarks w = p ++ .executed x :: q) :
    x.step ∈ x.tx.steps ∧ x.step.status = .inProgress ∧ ∃ p₀, p = p₀ ++ [.saved x.tx] := by
  obtain ⟨env', a, ha, hsame⟩ := run_landmarks h.hasTransactionDb h.cut
  exact Engine.announced_landmarks (by simp [context, h.hasTransactionDb]) env' ha
    (hsame.symm.trans hw)

/-- The snapshot that a session has saved last is stored; without one, what was stored before. -/
lemma Session.lastSaved (h : Session c tx env w db db') (hdb : db.Consistent)
    (hsequential : tx.Sequential) {last : Option Transaction} (hlast : db.LastSaved tx.id last)
    (hbefore : ∀ t ∈ last, t.Evolves tx) :
    db'.Consistent ∧ db'.LastSaved tx.id (last.toList ++ savedOf (landmarks w)).getLast? ∧
      ∀ t ∈ savedOf (landmarks w), t.Sequential ∧ Engine.Shows t := by
  obtain ⟨env', a, ha, hsame⟩ := run_landmarks h.hasTransactionDb h.cut
  obtain ⟨calls, hsaves, hsaved⟩ := h.saves
  have hsub : (savedOf (landmarks w)).Sublist
      (snapshots ((c.engine.run c.context tx).run env' []).2) := by
    rw [hsame]
    exact (Engine.savedOf_landmarks a).trans (ha.sublist.filterMap _)
  obtain ⟨hconsistent, hlastSaved, hall⟩ :=
    hsaves.last_stored hdb hsequential hlast hbefore (hsaved ▸ hsub)
  rw [hsaved] at hlastSaved hall
  exact ⟨hconsistent, hlastSaved, fun t ht => ⟨hall t ht, Engine.shows_of_snapshot
    (hsub.subset ht)⟩⟩

/-! ## What a resume keeps -/

/-- **What is resumed** has the results that were stored, and continues the snapshot. -/
lemma Holds.resumed (h : Holds again kept id db)
    (hresume : db.resumeTransaction id steps f identity now = .ok tx)
    (hf : f = true → again = true) :
    tx.Given ∧ tx.Sequential ∧ (∀ o, kept o → tx.FinalAt again o) ∧ tx.id = id ∧
      ∃ snap, db.LastSaved id (some snap) ∧ snap.Evolves tx ∧ snap.Sequential ∧
        Engine.Shows snap ∧ ∀ o, kept o → snap.FinalAt again o := by
  obtain ⟨snap, hlast, hsequential, hshows, hkept⟩ := h.stored
  have hid : snap.id = id := hlast.1
  have hvalid : snap.Valid := hlast.2.1
  have hevolves := Transaction.evolves_stored snap
  have hnumbered : snap.stored.Sequential := hsequential
  rcases hlast.resumed h.consistent hsequential hresume with
    ⟨hstatus, rfl⟩ | ⟨hprepared, hstatus, hstored, rfl⟩
  · refine ⟨Or.inr fun st hst => ?_, hnumbered, fun o ho => ?_, hid, snap, hlast, hevolves,
      hsequential, hshows, hkept⟩
    · exact hshows.complete hstatus st (Transaction.mem_orderedSteps.mp hst)
    · obtain ⟨st, hst, hfinal⟩ := hkept o ho
      exact ⟨st, Transaction.stepAt_stored hvalid hst, hfinal⟩
  · have hreset := hevolves.trans (Transaction.evolves_reset snap.stored
      (snap.stored.orderedSteps.map (snap.stored.restored f)) now)
    refine ⟨Or.inl (.resumed hprepared hstatus), hnumbered.reset _ _, fun o ho => ?_,
      hreset.id.trans hid, snap, hlast, hreset, hsequential, hshows, hkept⟩
    obtain ⟨st, hst, hfinal⟩ := hkept o ho
    have hat := Transaction.stepAt_stored_resumed hstored (Transaction.mem_of_stepAt hst) f now
    rw [Transaction.executionOrder_of_stepAt hst] at hat
    refine ⟨_, hat, ?_⟩
    rcases hfinal with hsuccess | ⟨rfl, hfailed, hends⟩
    · exact Or.inl (by simp [Transaction.restored, Transaction.resumedStatus,
        Transaction.resumedStepStatus, hsuccess])
    · obtain rfl : f = false := by simpa using hf
      refine Or.inr ⟨rfl, ?_, hends⟩
      rw [Step.endsInBusiness] at hends
      simp [Transaction.restored, Transaction.resumedStatus, Transaction.resumedStepStatus, hfailed,
        hends]

/-! ## Any number of sessions -/

/-- **One more session**: stored results stay stored, and no step that has one is executed.

**Proof sketch.** What is resumed has the results, and the execution keeps them
(`Session.keeps`): every snapshot that it saves has them, and so has the one that it resumes. -/
theorem Holds.session (h : Holds again kept id db)
    (hresume : db.resumeTransaction id steps f identity now = .ok tx)
    (hf : f = true → again = true) (hs : Session c tx env w db db') :
    Holds again kept id db' ∧ ∀ y, Landmark.executed y ∈ landmarks w → ¬ kept y.order := by
  obtain ⟨hgiven, hsequential, hkept, rfl, snap, hlast, hevolves, hnumbered, hshows, hfinal⟩ :=
    h.resumed hresume hf
  obtain ⟨hconsistent, hlastSaved, hall⟩ := hs.lastSaved h.consistent hsequential hlast
    fun t ht => by cases ht; exact hevolves
  have hkeeps : ∀ l ∈ landmarks w, ∃ p, l.Keeps again kept p := by
    intro l hl
    obtain ⟨p, q, hw⟩ := List.append_of_mem hl
    exact ⟨p, hs.keeps hgiven hkept hw⟩
  refine ⟨⟨hconsistent, ?_⟩, fun y hy hkept => ?_⟩
  · obtain ⟨last, hend⟩ : ∃ last, (snap :: savedOf (landmarks w)).getLast? = some last :=
      ⟨_, List.getLast?_eq_some_getLast (List.cons_ne_nil _ _)⟩
    refine ⟨last, hend ▸ hlastSaved, ?_⟩
    rcases List.mem_cons.mp (List.mem_of_getLast? hend) with rfl | hmem
    · exact ⟨hnumbered, hshows, hfinal⟩
    · obtain ⟨p, hp⟩ := hkeeps _ (mem_savedOf.mp hmem)
      exact ⟨(hall last hmem).1, (hall last hmem).2, fun o ho => hp o (Or.inl ho)⟩
  · obtain ⟨p, hp⟩ := hkeeps _ hy
    exact hp (Or.inl hkept)

/-- **Any number of sessions** keep stored results, and execute no step that has one. -/
theorem Resumes.holds {ws : List ExecuteTrace} (h : Resumes again id db ws db')
    (hholds : Holds again kept id db) :
    Holds again kept id db' ∧
      ∀ w ∈ ws, ∀ y, Landmark.executed y ∈ landmarks w → ¬ kept y.order := by
  induction h with
  | nil db => exact ⟨hholds, by simp⟩
  | cons resumed retries session rest ih =>
    obtain ⟨hnext, hfirst⟩ := hholds.session resumed retries session
    exact ⟨(ih hnext).1, List.forall_mem_cons.mpr ⟨hfirst, (ih hnext).2⟩⟩

/-! ## What a crash loses -/

/-- The snapshot that was saved last is stored after a session. -/
lemma Session.lastStored (h : Session c tx env w db db') (hstored : StoredEarlier db tx)
    (hlast : (savedOf (landmarks w)).getLast? = some snap) :
    db'.Consistent ∧ db'.LastSaved tx.id (some snap) ∧ snap.Sequential ∧ Engine.Shows snap := by
  obtain ⟨last, hearlier, hbefore⟩ := hstored.stored
  obtain ⟨hconsistent, hlastSaved, hall⟩ :=
    h.lastSaved hstored.consistent hstored.sequential hearlier hbefore
  have hsame : (last.toList ++ savedOf (landmarks w)).getLast? = some snap := by
    rw [List.getLast?_append, hlast, Option.some_or]
  exact ⟨hconsistent, hsame ▸ hlastSaved, hall snap (List.mem_of_getLast? hlast)⟩

/-- A snapshot that was saved after a body has ended with a result stores the result. -/
lemma Session.holds (h : Session c tx env w db db') (hgiven : tx.Given)
    (hstored : StoredEarlier db tx) (hw : landmarks w = p ++ .executed x :: q)
    (hresult : Ending.IsFinal again x.ending) (hsaved : ∃ snap, .saved snap ∈ q) :
    Holds again (fun o => o = x.order) tx.id db' := by
  obtain ⟨snap, hsnap⟩ : ∃ snap, (savedOf q).getLast? = some snap := by
    obtain ⟨snap, hmem⟩ := hsaved
    exact ⟨_, List.getLast?_eq_some_getLast (List.ne_nil_of_mem (mem_savedOf.mpr hmem))⟩
  have hlast : (savedOf (landmarks w)).getLast? = some snap := by
    have hsplit : savedOf (landmarks w) = savedOf p ++ savedOf q := by
      rw [hw, savedOf, List.filterMap_append]
      rfl
    rw [hsplit, List.getLast?_append, hsnap, Option.some_or]
  obtain ⟨hconsistent, hlastSaved, hsequential, hshows⟩ := h.lastStored hstored hlast
  refine ⟨hconsistent, snap, hlastSaved, hsequential, hshows, ?_⟩
  rintro _ rfl
  obtain ⟨q₁, q₂, rfl⟩ := List.append_of_mem (mem_savedOf.mp (List.mem_of_getLast? hsnap))
  have hkeeps : Landmark.Keeps again (fun _ => False) (p ++ .executed x :: q₁) (.saved snap) :=
    h.keeps hgiven (fun _ h => h.elim) (q := q₂) (by rw [hw]; simp)
  exact hkeeps x.order (Or.inr ⟨x, by simp, rfl, hresult⟩)

/-! ## A sample -/

/-- One save after the other. -/
def saveAll (db : TransactionDb) : List Transaction → Except PyError TransactionDb
  | [] => pure db
  | tx :: rest => do
    let d ← db.save tx
    saveAll d rest

/-- Saves that succeed one after the other. -/
lemma saveAll_run {states : List Transaction} (h : saveAll db states = .ok db') :
    SaveRun db (states.map fun t => (.plain t, .ok ())) db' := by
  induction states generalizing db with
  | nil =>
    cases h
    exact .nil _
  | cons t states ih =>
    obtain ⟨d, hsave, hrest⟩ := Except.bind_eq_ok.mp h
    refine .cons ⟨.empty, .empty, .commit ?_⟩ (ih hrest)
    simp only [SaveCall.run, Store.save, hsave]
    rfl

/-- An execution with a database. -/
def crashSample : Execute :=
  ⟨Engine.create 0, fun _ => ⟨0, some 0⟩, fun _ => "", Engine.roundingHost, false, true, false⟩

/-- Every body returns and every save succeeds. -/
def returning (_ : ExecuteTrace) : (op : ExecuteOp) → op.Res
  | .engine op => alwaysEnds (bareResult none .inProgress) [] op
  | .save _ => .ok ()
  | .retrySleep _ => ()
  | .enterScope => .ok none
  | .exitScope _ => .ok false

/-- The first events of the execution of a transaction. -/
def crashEvents (tx : Transaction) (n : ℕ) : ExecuteTrace := (crashSample.run tx returning).2.take n

/-- It stops there, after its saves. -/
lemma session_crashEvents {n : ℕ}
    (hids : ∀ t ∈ savedOf (landmarks (crashEvents tx n)), t.id = tx.id)
    (h : saveAll db (savedOf (landmarks (crashEvents tx n))) = .ok db') :
    Session crashSample tx returning (crashEvents tx n) db db' := by
  refine ⟨rfl, List.take_prefix _ _, _, saveAll_run h, ?_⟩
  rw [savedStates, List.filter_eq_self.mpr ?_, List.map_map]
  · exact List.map_id' _
  · intro entry hentry
    obtain ⟨t, ht, rfl⟩ := List.mem_map.mp hentry
    rw [SavedAs, Bool.and_eq_true]
    exact ⟨decide_eq_true (hids t ht), rfl⟩

/-- The database after the sample transaction has crashed, and what is resumed. -/
def crashed (n : ℕ) : Except PyError (TransactionDb × Transaction) := do
  let db ← saveAll .empty (savedOf (landmarks (crashEvents twoStepSample n)))
  let resumed ← db.resumeTransaction "1" [.create "a" 1, .create "b" 2] false (some "refunds")
    ⟨0, some 0⟩
  return (db, resumed)

/-- The same, and the database after the resumed transaction has crashed as well. -/
def crashedTwice : Except PyError (TransactionDb × Transaction × TransactionDb) := do
  let first ← crashed 4
  let d ← saveAll first.1 (savedOf (landmarks (crashEvents first.2 3)))
  return (first.1, first.2, d)

/-! ## Results and crashes -/

/-- **A result that was saved is never worked out again.** In a session the body of a step ends with
a result, and a later snapshot is saved before the process stops. Then the step is executed neither
in the rest of that session nor in any of the sessions that follow, however many there are and
wherever they stop.

**Proof sketch.** The snapshot that was saved last has the result; each session that resumes it
keeps the result in what it saves (`Holds.session`). -/
theorem saved_result_kept {ws : List ExecuteTrace} {d : TransactionDb}
    (h : Session c tx env w db db') (hgiven : tx.Given) (hstored : StoredEarlier db tx)
    (hw : landmarks w = p ++ .executed x :: q) (hresult : Ending.IsFinal again x.ending)
    (hsaved : ∃ snap, .saved snap ∈ q) (hlater : Resumes again tx.id db' ws d) :
    (∀ y, .executed y ∈ q → y.order ≠ x.order) ∧
      ∀ w' ∈ ws, ∀ y, .executed y ∈ landmarks w' → y.order ≠ x.order := by
  refine ⟨fun y hy horder => ?_, (hlater.holds (h.holds hgiven hstored hw hresult hsaved)).2⟩
  obtain ⟨q₁, q₂, rfl⟩ := List.append_of_mem hy
  have hkeeps : Landmark.Keeps again (fun _ => False) (p ++ .executed x :: q₁) (.executed y) :=
    h.keeps hgiven (fun _ h => h.elim) (q := q₂) (by rw [hw]; simp)
  exact hkeeps (Or.inr ⟨x, by simp, horder.symm, hresult⟩)

/-- The first step is not executed again, by an execution that crashes while it executes the
second. -/
theorem saved_result_kept_crashed : ∃ db resumed d,
    Session crashSample twoStepSample returning (crashEvents twoStepSample 4) .empty db ∧
    Session crashSample resumed returning (crashEvents resumed 3) db d ∧
    (landmarks (crashEvents resumed 3)).length = 3 ∧
    ∀ y, .executed y ∈ landmarks (crashEvents resumed 3) → y.order ≠ 1 := by
  obtain ⟨s₀, s₁, x, s₂, hw, horder, hending⟩ : ∃ s₀ s₁ x s₂,
      landmarks (crashEvents twoStepSample 4) =
        [.saved s₀, .saved s₁] ++ .executed x :: [.saved s₂] ∧
      x.order = 1 ∧ x.ending = some .succeeded := ⟨_, _, _, _, rfl, rfl, rfl⟩
  have hfirst : ∀ t ∈ savedOf (landmarks (crashEvents twoStepSample 4)),
      t.id = twoStepSample.id := by
    decide +kernel
  have hchecked : crashedTwice.toOption.any
      (fun (r : TransactionDb × Transaction × TransactionDb) => decide
        ((∀ t ∈ savedOf (landmarks (crashEvents r.2.1 3)), t.id = r.2.1.id) ∧
          (landmarks (crashEvents r.2.1 3)).length = 3)) = true := by
    decide +kernel
  cases htwice : crashedTwice with
  | error err =>
    rw [htwice] at hchecked
    cases hchecked
  | ok r =>
    rw [htwice] at hchecked
    obtain ⟨hids, hlength⟩ := of_decide_eq_true hchecked
    obtain ⟨⟨db, resumed⟩, hcrashed, h⟩ := Except.bind_eq_ok.mp htwice
    obtain ⟨d, hsecond, h⟩ := Except.bind_eq_ok.mp h
    cases h
    obtain ⟨db', hsaves, h⟩ := Except.bind_eq_ok.mp hcrashed
    obtain ⟨resumed', hresume, h⟩ := Except.bind_eq_ok.mp h
    cases h
    have hsession := session_crashEvents hfirst hsaves
    have hlater := session_crashEvents hids hsecond
    have hresumes : Resumes false twoStepSample.id _ [crashEvents _ 3] _ :=
      .cons hresume (fun h => h) hlater (.nil _)
    have hkept := saved_result_kept hsession (Or.inl (.fresh (by decide) rfl))
      ⟨TransactionDb.consistent_empty, rfl, none, rfl, by simp⟩ hw (Or.inl hending)
      ⟨s₂, List.mem_singleton_self _⟩ hresumes
    refine ⟨_, _, _, hsession, hlater, hlength, fun y hy => ?_⟩
    rw [← horder]
    exact hkept.2 _ (List.mem_singleton_self _) y hy

/-- **The results that a crash loses.** In a session the body of a step ends with a result, the
process stops somewhere, and the transaction is resumed. No run of what is returned executes the
step again, if and only if a snapshot was saved after the body had ended.

**Proof sketch.** A later snapshot has the result (`Session.holds`), which a resume and a run keep.
Without one the snapshot saved last is the one that announced the call of the body, with the step
`IN_PROGRESS`; a resume makes that `PENDING`, and some run executes it. -/
theorem result_repeated_iff {resumed : Transaction} (h : Session c tx env w db db')
    (hgiven : tx.Given) (hstored : StoredEarlier db tx)
    (hw : landmarks w = p ++ .executed x :: q) (hresult : Ending.IsFinal again x.ending)
    (hresume : db'.resumeTransaction tx.id steps f identity now = .ok resumed)
    (hf : f = true → again = true) :
    (∀ (e : Engine) (ctx : RunContext) (env' : EngineTrace → (op : EngineOp) → op.Res),
      ∀ y ∈ executionsOf ((e.run ctx resumed).run env' []).2, y.order ≠ x.order) ↔
    ∃ snap, .saved snap ∈ q := by
  constructor
  · intro hnever
    by_contra hunsaved
    obtain ⟨hmem, hprogress, p₀, rfl⟩ := h.announced hw
    have hnone : savedOf q = [] := List.eq_nil_iff_forall_not_mem.mpr fun snap hsnap =>
      hunsaved ⟨snap, mem_savedOf.mp hsnap⟩
    have hlast : (savedOf (landmarks w)).getLast? = some x.tx := by
      have hsplit : savedOf (landmarks w) = savedOf p₀ ++ [x.tx] ++ savedOf q := by
        rw [hw, savedOf, List.filterMap_append, List.filterMap_append]
        rfl
      rw [hsplit, hnone, List.append_nil, List.getLast?_concat]
    obtain ⟨hconsistent, hsaved, hsequential, hshows⟩ := h.lastStored hstored hlast
    rcases hsaved.resumed hconsistent hsequential hresume with
      ⟨hstatus, -⟩ | ⟨-, -, hvalid, rfl⟩
    · have hcomplete := hshows.complete hstatus x.step hmem
      simp [Step.isComplete, hprogress] at hcomplete
    · have hat := Transaction.stepAt_stored_resumed hvalid hmem f now
      have hpending : (x.tx.stored.resumed f now).pendingAt x.order = true := by
        rw [Execution.order, Transaction.pendingAt, hat, Option.any_some, Transaction.restored]
        simp [Transaction.resumedStatus, Transaction.resumedStepStatus, hprogress]
      obtain ⟨y, hy, horder⟩ := Engine.pending_executed (hshows.admitted_resumed hvalid f now)
        Transaction.isResumed_reset hpending
      exact hnever _ _ _ y hy horder
  · rintro hsaved e ctx env' y hy horder
    obtain ⟨hgiven', -, hkept, -⟩ :=
      (h.holds hgiven hstored hw hresult hsaved).resumed hresume hf
    exact Engine.final_not_executed hgiven' (hkept _ rfl) e ctx env' y hy horder

/-- **A crash right after the first step** loses its result: a run of what is resumed executes the
step again. -/
theorem result_repeated_iff_crashed : ∃ db resumed,
    Session crashSample twoStepSample returning (crashEvents twoStepSample 3) .empty db ∧
    db.resumeTransaction "1" [.create "a" 1, .create "b" 2] false (some "refunds") ⟨0, some 0⟩ =
      .ok resumed ∧
    ∃ (e : Engine) (ctx : RunContext) (env : EngineTrace → (op : EngineOp) → op.Res),
      ∃ y ∈ executionsOf ((e.run ctx resumed).run env []).2, y.order = 1 := by
  obtain ⟨s₀, s₁, x, hw, horder, hending⟩ : ∃ s₀ s₁ x,
      landmarks (crashEvents twoStepSample 3) = [.saved s₀, .saved s₁] ++ .executed x :: [] ∧
      x.order = 1 ∧ x.ending = some .succeeded := ⟨_, _, _, rfl, rfl, rfl⟩
  have hids : ∀ t ∈ savedOf (landmarks (crashEvents twoStepSample 3)),
      t.id = twoStepSample.id := by
    decide +kernel
  have hchecked : (crashed 3).toOption.isSome = true := by
    decide +kernel
  cases hcrashed : crashed 3 with
  | error err =>
    rw [hcrashed] at hchecked
    cases hchecked
  | ok r =>
    obtain ⟨db, hsaves, h⟩ := Except.bind_eq_ok.mp hcrashed
    obtain ⟨resumed, hresume, h⟩ := Except.bind_eq_ok.mp h
    have hsession := session_crashEvents hids hsaves
    have hresult : Ending.IsFinal false x.ending := Or.inl hending
    have hiff := result_repeated_iff hsession (Or.inl (.fresh (by decide) rfl))
      ⟨TransactionDb.consistent_empty, rfl, none, rfl, by simp⟩ hw hresult hresume fun h => h
    refine ⟨db, resumed, hsession, hresume, ?_⟩
    by_contra hnone
    push Not at hnone
    rw [horder] at hiff
    obtain ⟨snap, hsnap⟩ := hiff.mp hnone
    cases hsnap

/-! ## Executions that return -/

/-- The snapshot that an execution saves last is its last state, if it returns and the resource
scope was not left with an exception. -/
lemma run_returns (hdb : c.hasTransactionDb = true) (hok : (c.run tx env).1.1 = .ok ())
    (hscope : ¬ LeftByException (c.run tx env).2) :
    (savedOf (landmarks (c.run tx env).2)).getLast? = some (c.run tx env).1.2 := by
  rcases c.runsEngine_run env tx with ⟨-, hleft⟩ | ⟨u, v, hu, hv, hrun, hfinal, hreturns⟩
  · exact absurd (hleft hok) hscope
  · have hbody := (Prog.wp_run_trace (Prog.project c.interpreter env ((), u))
      (Engine.wp_body_returns (e := c.engine) (s := ⟨tx, 0⟩) (t := [])
        (show c.context.hasCheckpoint = true by simp [context, hdb])) fun _ _ => trivial).2
    have hlast : (Engine.landmarks (c.behind env tx u).2).getLast? =
        some (.saved (c.behind env tx u).1.2.tx) := by
      have hreturned := (hreturns hok).resolve_right hscope
      change Proc.post _ _ (c.behind env tx u).1 (c.behind env tx u).2 at hbody
      generalize c.behind env tx u = result at hbody hreturned ⊢
      obtain ⟨⟨err | _, s⟩, t⟩ := result
      · cases hreturned
      · exact hbody
    have hsame : landmarks (c.run tx env).2 = Engine.landmarks (c.behind env tx u).2 := by
      rw [hrun, landmarks, List.filterMap_append]
      change landmarks _ ++ landmarks v = _
      rw [landmarks_runEngine hdb, hu, hv, List.nil_append, List.append_nil]
    obtain ⟨before, hbefore⟩ := List.getLast?_eq_some_iff.mp hlast
    rw [hsame, hbefore, hfinal, savedOf, List.filterMap_append]
    exact List.getLast?_concat

/-- **An execution that returns has stored what it leaves.** If `execute_transaction` returns, and
not because the resource scope suppressed an exception, then a load gives the transaction as the
execution has left it.

**Proof sketch.** The engine returns from its last checkpoint, which was given its last state; the
save behind it has succeeded, perhaps after it was tried again. -/
theorem returned_stored (h : Session c tx env (c.run tx env).2 db db')
    (hstored : StoredEarlier db tx) (hok : (c.run tx env).1.1 = .ok ())
    (hscope : ¬ LeftByException (c.run tx env).2) :
    ∃ revision, db'.load tx.id = .ok ((c.run tx env).1.2.stored, revision) := by
  obtain ⟨hconsistent, ⟨hid, hvalid, hstores⟩, hsequential, -⟩ :=
    h.lastStored hstored (run_returns h.hasTransactionDb hok hscope)
  obtain ⟨revision, hload⟩ := hstores.load hconsistent hsequential.increasing hvalid
  exact ⟨revision, hid ▸ hload⟩

/-- The sample transaction is loaded as its execution has left it. -/
theorem returned_stored_sample : ∃ db' loaded revision,
    Session crashSample twoStepSample returning (crashSample.run twoStepSample returning).2 .empty
      db' ∧
    db'.load "1" = .ok (loaded, revision) ∧ loaded.status = .successful := by
  obtain ⟨s₀, s₁, x₁, r₁, s₂, s₃, x₂, r₂, s₄, s₅, hrun, hok, hstatus⟩ :
      ∃ s₀ s₁ x₁ r₁ s₂ s₃ x₂ r₂ s₄ s₅, (crashSample.run twoStepSample returning).2 =
        [⟨.save s₀, .ok ()⟩, ⟨.save s₁, .ok ()⟩, ⟨.engine x₁, r₁⟩, ⟨.save s₂, .ok ()⟩,
          ⟨.save s₃, .ok ()⟩, ⟨.engine x₂, r₂⟩, ⟨.save s₄, .ok ()⟩, ⟨.save s₅, .ok ()⟩] ∧
      (crashSample.run twoStepSample returning).1.1 = .ok () ∧
      (crashSample.run twoStepSample returning).1.2.status = .successful :=
    ⟨_, _, _, _, _, _, _, _, _, _, rfl, rfl, rfl⟩
  have hall : crashEvents twoStepSample 8 = (crashSample.run twoStepSample returning).2 :=
    List.take_of_length_le (by rw [hrun]; simp)
  have hids : ∀ t ∈ savedOf (landmarks (crashEvents twoStepSample 8)),
      t.id = twoStepSample.id := by
    decide +kernel
  have hchecked : (crashed 8).toOption.isSome = true := by
    decide +kernel
  cases hcrashed : crashed 8 with
  | error err =>
    rw [hcrashed] at hchecked
    cases hchecked
  | ok r =>
    obtain ⟨db, hsaves, -⟩ := Except.bind_eq_ok.mp hcrashed
    have hsession := hall ▸ session_crashEvents hids hsaves
    obtain ⟨revision, hload⟩ := returned_stored hsession
      ⟨TransactionDb.consistent_empty, rfl, none, rfl, by simp⟩ hok
      (by rw [hrun]; simp [LeftByException])
    exact ⟨db, _, revision, hsession, hload, hstatus⟩

end Execute
