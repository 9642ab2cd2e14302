import RpaCore.Model.Timestamp
import RpaCore.Queue.Attempts
import RpaCore.Queue.Rows

set_option relaxedAutoImplicit false
set_option autoImplicit false

/-!
# Deadlines of delivery

An item that waits may carry a deadline before which no worker takes it. A worker selects an item
outside the write lock, so what it has selected may be stale: the claim and the quarantine check
the deadline again, against the one that was selected and against a reading of the worker's own
clock. The database compares texts, which is the comparison of instants because every deadline
in the column is a canonical UTC text.

## Main definitions

* `QueueRetry.retryAvailableAt`, `QueueRetry.parseAvailableAtText` — the rest of `_queue_retry.py`.
* `QueueOp.takes` — the statements that take a selected item off the queue.
* `RegularStep` — clocks read UTC, and retries are scheduled by `retry_available_at`.
* `TakenWhenDue` — what holds of an item that is taken off the queue.

## Main results

* `QueueRetry.parseAvailableAtText_ok_iff` — exactly the canonical texts are accepted.
* `QueueRun.canonicalDeadlines` — the column holds canonical texts only.
* `delivered_when_due` — no delivery before its deadline.
-/

/-! ## Texts of deadlines -/

/-- `retry_available_at`, for the waiting time in microseconds that its floating point arithmetic
gives for a retry count; there is none without a delay. -/
def QueueRetry.retryAvailableAt (wait : ℤ → Option ℕ) (now : Datetime) (retryCount : ℤ) :
    Except PyError (Option Datetime) :=
  match wait retryCount with
  | none => .ok none
  | some micros =>
    if now.micros + micros < Datetime.maxMicros then
      availableAtText (some { now with micros := now.micros + micros })
    else .error (.overflowError "date value out of range")

/-- The queue schedules its retries with `retry_available_at`. -/
def SqliteQueue.DelaysRetries (q : SqliteQueue) : Prop :=
  ∃ wait, q.retryAvailableAt = QueueRetry.retryAvailableAt wait

/-- `parse_available_at` of the text in the column. -/
def QueueRetry.parseAvailableAtText (fromisoformat : String → Except PyError Datetime)
    (raw : Option String) : Except PyError (Option Datetime) := do
  let value ← raw.mapM fromisoformat
  let text ← availableAtText value
  if text.map (Datetime.isoText true) = raw then pure value
  else throw (.valueError "queue.available_at must use canonical UTC microseconds")

/-- `available_at_text` writes canonical texts, and keeps the instant. -/
lemma availableAtText_ok {value text : Option Datetime} (h : availableAtText value = .ok text) :
    (value = none ∧ text = none) ∨ ∃ d u, value = some d ∧ text = some u ∧ u.IsCanonical ∧
      u.instant = d.instant := by
  unfold availableAtText at h
  split at h
  · cases h
    exact Or.inl ⟨rfl, rfl⟩
  · next d =>
    split at h
    · split at h
      · next u hu =>
        cases h
        obtain ⟨hcanonical, hinstant⟩ := Datetime.astimezoneUtc_canonical hu
        exact Or.inr ⟨d, u, rfl, rfl, hcanonical, hinstant⟩
      · cases h
    · cases h

/-- A canonical value is its own text. -/
lemma availableAtText_canonical {d : Datetime} (h : d.IsCanonical) :
    availableAtText (some d) = .ok (some d) := by
  have haware : d.isAware = true := by simp [Datetime.isAware, h.utc]
  simp [availableAtText, haware, h.astimezoneUtc]

/-- The texts of two deadlines are ordered as their instants. -/
lemma availableAtText_le {a b u v : Datetime} (ha : availableAtText (some a) = .ok (some u))
    (hb : availableAtText (some b) = .ok (some v)) :
    u.isoText true ≤ v.isoText true ↔ a.instant ≤ b.instant := by
  obtain ⟨-, hnone⟩ | ⟨_, _, hva, hua, hcu, hia⟩ := availableAtText_ok ha
  · cases hnone
  obtain ⟨-, hnone⟩ | ⟨_, _, hvb, hub, hcv, hib⟩ := availableAtText_ok hb
  · cases hnone
  cases hva
  cases hua
  cases hvb
  cases hub
  rw [hcu.text_le hcv, hia, hib]

/-- **Exactly the canonical texts are accepted**, and read back as they were written.

**Proof sketch.** An accepted text is the text of a canonical value, by the comparison with what
`available_at_text` writes; then the value read is that one. -/
theorem QueueRetry.parseAvailableAtText_ok_iff {fromisoformat : String → Except PyError Datetime}
    (hread : ∀ d : Datetime, d.IsCanonical → fromisoformat (d.isoText true) = .ok d)
    {raw : Option String} {value : Option Datetime} :
    parseAvailableAtText fromisoformat raw = .ok value ↔
      raw = value.map (Datetime.isoText true) ∧ ∀ d ∈ value, d.IsCanonical := by
  constructor
  · intro h
    obtain ⟨parsed, hparsed, h⟩ := Except.bind_eq_ok.mp h
    obtain ⟨text, htext, h⟩ := Except.bind_eq_ok.mp h
    split at h
    · next hraw =>
      cases h
      obtain ⟨rfl, rfl⟩ | ⟨d, u, rfl, rfl, hu, -⟩ := availableAtText_ok htext
      · exact ⟨hraw.symm, by simp⟩
      · obtain ⟨-, hnone⟩ | ⟨s, d', hs, hd, hd'⟩ := optionMapM_ok hparsed
        · cases hnone
        · have htext : s = u.isoText true := Option.some.inj (hs.symm.trans hraw.symm)
          have heq : d' = u := Except.ok.inj (hd.symm.trans (htext ▸ hread u hu))
          have hvalue : d = u := (Option.some.inj hd').trans heq
          subst hvalue
          exact ⟨hraw.symm, fun _ hmem => Option.mem_some.mp hmem ▸ hu⟩
    · cases h
  · rintro ⟨rfl, hcanonical⟩
    cases value with
    | none => rfl
    | some d =>
      have hd := hcanonical d rfl
      refine Except.bind_eq_ok.mpr ⟨some d, ?_, Except.bind_eq_ok.mpr
        ⟨some d, availableAtText_canonical hd, if_pos rfl⟩⟩
      rw [Option.map_some, Option.mapM_some, hread d hd]
      rfl

/-! ## What a call sends -/

/-- The selected row and the clock reading with which a statement takes an item off the queue. -/
def QueueOp.takes : QueueOp → Option (QueueRow × Datetime)
  | .claim selected _ now _ => some (selected, now)
  | .quarantine selected now _ _ => some (selected, now)
  | _ => none

/-- A call has selected the row, and has read its clock since. -/
def SelectedThenRead (evs : List (Event QueueOp QueueOp.Res)) (selected : QueueRow)
    (now : Datetime) : Prop :=
  ∃ evs₁ moment evs₂ evs₃, evs =
    evs₁ ++ ⟨.selectNext moment, .ok (some selected)⟩ :: evs₂ ++ ⟨.clock, now⟩ :: evs₃

/-- A statement takes what its call has selected, at a later reading. -/
def TakesSelected (evs : List (Event QueueOp QueueOp.Res)) (op : QueueOp) : Prop :=
  ∀ selected now, op.takes = some (selected, now) → SelectedThenRead evs selected now

/-- The monitor of what a call takes. -/
abbrev takesMonitor : Monitor QueueOp QueueOp.Res (List (Event QueueOp QueueOp.Res)) :=
  traceMonitor TakesSelected fun _ _ _ => True

/-- Other statements take nothing. -/
lemma TakesSelected.of_none {evs : List (Event QueueOp QueueOp.Res)} {op : QueueOp}
    (h : op.takes = none) : TakesSelected evs op := by
  intro selected now htakes
  rw [h] at htakes
  cases htakes

/-- The call of a method takes what the method takes. -/
lemma QueueM.wp_takes {α : Type} {p : QueueM α} {f : α → QueueAnswer}
    {evs : List (Event QueueOp QueueOp.Res)}
    (h : p.wp takesMonitor (fun _ _ _ => True) (fun _ _ _ => True) () evs) :
    (p.program f).wp takesMonitor (fun _ _ => True) evs :=
  QueueM.program_wp.mpr h

/-- The loop of `next_item` takes what it has selected in the same round. -/
lemma SqliteQueue.wp_takes_nextItemLoop (q : SqliteQueue) (workerId : String) (n : ℕ)
    (evs : List (Event QueueOp QueueOp.Res)) :
    (q.nextItemLoop workerId n).wp takesMonitor (fun _ _ _ => True) (fun _ _ _ => True) () evs := by
  induction n generalizing evs with
  | zero => trivial
  | succ n ih =>
    simp only [nextItemLoop, Proc.wp_bind, now, newToken, Proc.wp_call, Proc.wp_ofExcept]
    refine ⟨.of_none rfl, fun moment _ => ⟨.of_none rfl, fun answer _ => ?_⟩⟩
    cases answer with
    | error err => trivial
    | ok row =>
      cases row with
      | none => trivial
      | some row =>
        simp only [Proc.wp_bind, Proc.wp_ofExcept]
        split
        · split
          · split
            · trivial
            · -- The payload is not decodable: the clock is read twice, then the item is taken.
              simp only [Proc.wp_bind, Proc.wp_call, Proc.wp_ofExcept]
              refine ⟨.of_none rfl, fun now _ => ⟨.of_none rfl, fun createdAt _ => ?_⟩⟩
              refine ⟨?_, fun answer _ => ?_⟩
              · rintro selected reading ⟨⟩
                exact ⟨evs ++ [⟨.clock, moment⟩], moment, [], [⟨.clock, createdAt⟩],
                  by simp [traceMonitor]⟩
              · split
                · exact ih _
                · trivial
          · simp only [Proc.wp_bind, Proc.wp_call, Proc.wp_ofExcept]
            refine ⟨.of_none rfl, fun now _ => ⟨.of_none rfl, fun token _ => ?_⟩⟩
            refine ⟨?_, fun answer _ => ?_⟩
            · rintro selected reading ⟨⟩
              exact ⟨evs ++ [⟨.clock, moment⟩], moment, [], [⟨.newToken, token⟩],
                by simp [traceMonitor]⟩
            · split
              · split
                · exact ih _
                · trivial
              · trivial
        · trivial

/-- **What every call takes, it has selected.** -/
theorem QueueCall.takes {prog : Prog QueueOp QueueOp.Res (Except PyError QueueAnswer)}
    (h : QueueCall prog) : prog.wp takesMonitor (fun _ _ => True) [] := by
  cases h with
  | add q item =>
    refine QueueM.wp_takes ⟨.of_none rfl, fun answer _ => ?_⟩
    cases answer <;> trivial
  | nextItem q workerId rounds =>
    refine QueueM.wp_takes ?_
    simp only [SqliteQueue.nextItem, SqliteQueue.now, Proc.wp_bind, Proc.wp_call, Proc.wp_ofExcept]
    refine ⟨.of_none rfl, fun now _ => ⟨.of_none rfl, fun answer _ => ?_⟩⟩
    cases answer with
    | error err => trivial
    | ok => exact q.wp_takes_nextItemLoop workerId rounds _
  | bindTransaction itemId transactionId claimedBy claimToken =>
    refine QueueM.wp_takes ⟨.of_none rfl, fun answer _ => ?_⟩
    cases answer <;> trivial
  | renewLease itemId claimedBy claimToken =>
    refine QueueM.wp_takes ⟨.of_none rfl, fun now _ => ⟨.of_none rfl, fun answer _ => ?_⟩⟩
    cases answer <;> trivial
  | complete itemId claimedBy claimToken =>
    refine QueueM.wp_takes ⟨.of_none rfl, fun now _ => ⟨.of_none rfl, fun answer _ => ?_⟩⟩
    cases answer <;> trivial
  | fail q itemId claimedBy claimToken retry =>
    refine QueueM.wp_takes ?_
    simp only [SqliteQueue.fail, SqliteQueue.now, Proc.wp_bind, Proc.wp_call, Proc.wp_ofExcept]
    refine ⟨.of_none rfl, fun answer _ => ?_⟩
    cases answer with
    | error err => trivial
    | ok count =>
      refine ⟨.of_none rfl, fun now _ => ⟨.of_none rfl, fun answer _ => ?_⟩⟩
      cases answer <;> trivial
  | forceComplete q itemId reason =>
    refine QueueM.wp_takes ?_
    unfold SqliteQueue.forceComplete SqliteQueue.forceTransition
    refine Proc.wp_ite (fun _ => trivial) fun _ => ?_
    refine ⟨.of_none rfl, fun now _ => ⟨.of_none rfl, fun answer _ => ?_⟩⟩
    cases answer <;> trivial
  | forceFail q itemId reason retry =>
    refine QueueM.wp_takes ?_
    unfold SqliteQueue.forceFail SqliteQueue.forceTransition
    refine Proc.wp_ite (fun _ => trivial) fun _ => ?_
    refine ⟨.of_none rfl, fun now _ => ⟨.of_none rfl, fun answer _ => ?_⟩⟩
    cases answer <;> trivial

/-! ## The column of deadlines -/

/-- The queue object a statement is sent by, where its configuration matters. -/
def QueueOp.config : QueueOp → Option SqliteQueue
  | .add q _ => some q
  | .reclaimStale q _ => some q
  | .failCommit q _ _ _ _ _ _ => some q
  | .forceTransition q _ _ _ _ _ => some q
  | _ => none

/-- Clocks read UTC, as `now_utc` does, and retries are scheduled by `retry_available_at`. -/
def RegularStep : QueueLabel → Prop
  | .start _ _ => True
  | .answer _ ⟨.clock, reading⟩ => reading.IsCanonical
  | .answer _ ⟨op, _⟩ => ∀ q ∈ op.config, q.DelaysRetries

/-- Every deadline in the column is a canonical UTC text. -/
def QueueDb.CanonicalDeadlines (db : QueueDb) : Prop :=
  ∀ row ∈ db.items, ∀ due ∈ row.availableAt, due.IsCanonical

/-- A queue object that delays its retries schedules canonical deadlines. -/
lemma SqliteQueue.DelaysRetries.canonical {q : SqliteQueue} (h : q.DelaysRetries) {now : Datetime}
    {count : ℤ} {text : Option Datetime} (htext : q.retryAvailableAt now count = .ok text) :
    ∀ due ∈ text, due.IsCanonical := by
  obtain ⟨wait, hwait⟩ := h
  rw [hwait, QueueRetry.retryAvailableAt] at htext
  split at htext
  · cases htext
    simp
  · split at htext
    · obtain ⟨-, rfl⟩ | ⟨d, u, -, rfl, hu, -⟩ := availableAtText_ok htext
      · simp
      · simpa using hu
    · cases htext

/-- The deadlines that a regular statement sets are canonical. -/
lemma QueueOp.Schedules.canonical {op : QueueOp} (hconfig : ∀ q ∈ op.config, q.DelaysRetries)
    {text : Option Datetime} (h : op.Schedules text) : ∀ due ∈ text, due.IsCanonical := by
  have hpolicy : ∀ {q : SqliteQueue} {now : Datetime}, op.config = some q →
      (text = none ∨ ∃ count, q.retryAvailableAt now count = .ok text) →
      ∀ due ∈ text, due.IsCanonical := by
    rintro q now hq (rfl | ⟨count, htext⟩)
    · simp
    · exact (hconfig q hq).canonical htext
  cases op with
  | reclaimStale q now => exact hpolicy rfl h
  | failCommit q _ _ _ _ _ now => exact hpolicy rfl h
  | forceTransition q _ _ _ _ now => exact hpolicy rfl h
  | _ =>
    obtain rfl : text = none := h
    simp

/-- A statement keeps the column canonical. -/
lemma QueueOp.Exec.canonicalDeadlines {s s' : QueueSystem} {op : QueueOp} {r : op.Res}
    (hlegit : op.Legit) (hconfig : ∀ q ∈ op.config, q.DelaysRetries) (h : op.Exec s r s')
    (hs : s.db.CanonicalDeadlines) : s'.db.CanonicalDeadlines := by
  rcases h.db with heq | ⟨v, hrun⟩
  · rwa [heq]
  · by_cases hadd : ∃ q item, op = .add q item
    · obtain ⟨q, item, rfl⟩ := hadd
      obtain ⟨text, htext, -, -, hdb⟩ := QueueDb.add_row (QueueOp.tables_of_map hrun)
      intro row hrow due hdue
      rw [hdb] at hrow
      rcases List.mem_append.mp hrow with hrow | hrow
      · exact hs row hrow due hdue
      · rw [List.mem_singleton.mp hrow] at hdue
        obtain ⟨-, rfl⟩ | ⟨d, u, -, rfl, hu, -⟩ := availableAtText_ok htext
        · cases hdue
        · cases hdue
          exact hu
    · obtain ⟨f, hf, hstep⟩ := QueueOp.run_rows (fun q item heq => hadd ⟨q, item, heq⟩) hlegit hrun
      intro row hrow due hdue
      rw [hf] at hrow
      obtain ⟨before, hbefore, rfl⟩ := List.mem_map.mp hrow
      rcases (hstep before hbefore).deadline with heq | hschedules
      · exact hs before hbefore due (heq ▸ hdue)
      · exact hschedules.canonical hconfig due hdue

/-- **The column holds canonical texts only**, in every state of a regular run. -/
theorem QueueRun.canonicalDeadlines {t : List QueueLabel} {P : QueuePool} (h : QueueRun t P)
    (hreg : ∀ l ∈ t, RegularStep l) : P.shared.db.CanonicalDeadlines := by
  refine Machine.Run.induct (I := fun _ s => s.db.CanonicalDeadlines) h ?_
    (fun _ _ _ _ _ _ hI => hI) ?_
  · intro row hrow
    cases hrow
  · intro t₁ p op r t₂ s s' ht hexec hI
    obtain ⟨_, _, _, hsends⟩ := h.sends.1 _ _ _ _ ht
    have hregular := hreg (.answer p ⟨op, r⟩) (by simp [ht])
    by_cases hclock : op = .clock
    · subst hclock
      rwa [show s' = s from hexec]
    · refine hexec.canonicalDeadlines hsends.legit ?_ hI
      cases op with
      | clock => exact absurd rfl hclock
      | _ => exact hregular

/-! ## Items that are taken -/

/-- The state of an item that a call of process `p` takes off the queue: it waits, with the
deadline that the call has selected, which is not after the later clock reading `now`. -/
structure TakenWhenDue (t : List QueueLabel) (p : ℕ) (selected : QueueRow) (now : Datetime)
    (row : QueueRow) : Prop where
  id : row.id = selected.id
  pending : row.status = .pending
  deadline : row.availableAt = selected.availableAt
  due : ∀ due ∈ row.availableAt, due.instant ≤ now.instant
  read : ∃ prog evs, callOf p t = some (prog, evs) ∧ SelectedThenRead evs selected now

/-- What a statement that takes an item does to the items. -/
lemma QueueOp.run_takes {op : QueueOp} {selected : QueueRow} {now : Datetime}
    (htakes : op.takes = some (selected, now)) {db db' : QueueDb}
    (hkeyed : Table.Keyed QueueRow.id db.items) {v : op.Val} (h : op.run db = .ok (v, db')) :
    db'.items = db.items ∨ ∃ f : QueueRow → QueueRow,
      (∀ r, QueueDb.stillSelected selected now r = true → (f r).id = r.id) ∧
      db'.items = Table.update (QueueDb.stillSelected selected now) f db.items := by
  cases op with
  | claim _ workerId _ token =>
    cases htakes
    rcases QueueDb.claim_ok hkeyed h with ⟨-, rfl⟩ | ⟨row, hclaims, -⟩
    · exact Or.inl rfl
    · refine Or.inr ⟨_, fun r _ => ?_, hclaims.items⟩
      rfl
  | quarantine _ _ errorType createdAt =>
    cases htakes
    cases h
    rcases QueueDb.quarantine_cases selected now errorType createdAt hkeyed with
      ⟨hitems, -⟩ | ⟨f, _, -, -, -, hreleased, -, -, hitems, -⟩
    · exact Or.inl hitems
    · exact Or.inr ⟨f, fun r hr => (hreleased r hr).id, hitems⟩
  | _ => cases htakes

/-- Only a claim makes an item be in progress. -/
lemma QueueOp.run_inProgress {op : QueueOp} (hlegit : op.Legit)
    (hclaim : ∀ selected workerId now token, op ≠ .claim selected workerId now token)
    {db db' : QueueDb} (hkeyed : Table.Keyed QueueRow.id db.items) {v : op.Val}
    (h : op.run db = .ok (v, db')) {row' : QueueRow} (hrow' : row' ∈ db'.items)
    (hprogress : row'.status = .inProgress) :
    ∃ row ∈ db.items, row.id = row'.id ∧ row.status = .inProgress := by
  -- The rows in progress under an id are those the statement began with.
  have hupdate : ∀ {d d' : QueueDb} {p : QueueRow → Bool} {f : QueueRow → QueueRow},
      d'.items = Table.update p f d.items →
      (∀ r, p r = true → (f r).status = .inProgress → (f r).id = r.id ∧ r.status = .inProgress) →
      ∀ r' ∈ d'.items, r'.status = .inProgress →
        ∃ r ∈ d.items, r.id = r'.id ∧ r.status = .inProgress := by
    intro d d' p f hitems hf r' hr' hr'progress
    rw [hitems] at hr'
    obtain ⟨r, hr, rfl⟩ := Table.mem_update.mp hr'
    split at hr'progress
    · next hp =>
      obtain ⟨hid, hstatus⟩ := hf r hp hr'progress
      exact ⟨r, hr, by rw [if_pos hp, hid], hstatus⟩
    · next hp => exact ⟨r, hr, by rw [if_neg hp], hr'progress⟩
  refine (QueueOp.run_induction hlegit (P := fun d => Table.Keyed QueueRow.id d.items ∧
    ∀ r' ∈ d.items, r'.status = .inProgress →
      ∃ r ∈ db.items, r.id = r'.id ∧ r.status = .inProgress) (fun _ hd => hd.1) ?_ h
    ⟨hkeyed, fun r hr hprogress => ⟨r, hr, rfl, hprogress⟩⟩).2 row' hrow' hprogress
  rintro d d' ⟨hd, hback⟩ hchange
  refine ⟨hchange.keyed hd, fun r' hr' hr'progress => ?_⟩
  suffices hone : ∃ r ∈ d.items, r.id = r'.id ∧ r.status = .inProgress by
    obtain ⟨r, hr, hid, hrprogress⟩ := hone
    obtain ⟨r₀, hr₀, hid₀, hr₀progress⟩ := hback r hr hrprogress
    exact ⟨r₀, hr₀, hid₀.trans hid, hr₀progress⟩
  cases hchange with
  | same hitems => exact ⟨r', hitems ▸ hr', rfl, hr'progress⟩
  | @add q item row hop hnew hrow htx hitems hattempts =>
    rw [hitems] at hr'
    rcases List.mem_append.mp hr' with hr' | hr'
    · exact ⟨r', hr', rfl, hr'progress⟩
    · rw [List.mem_singleton.mp hr', hrow.status] at hr'progress
      cases hr'progress
  | drop hf hitems =>
    exact hupdate hitems (fun r hr hstatus => absurd hstatus (hf r hr).status) r' hr' hr'progress
  | claim hop =>
    obtain rfl := congrArg Sigma.fst hop
    exact absurd rfl (hclaim _ _ _ _)
  | bind _ _ _ hitems =>
    exact hupdate hitems (fun r _ hstatus => ⟨rfl, hstatus⟩) r' hr' hr'progress
  | renew _ _ _ hitems =>
    exact hupdate hitems (fun r _ hstatus => ⟨rfl, hstatus⟩) r' hr' hr'progress
  | release hr =>
    exact hupdate hr.items (fun r hp hstatus => absurd hstatus (hr.released r hp).status) r' hr'
      hr'progress

/-- Only a quarantine records a poison event, of an item that it has taken. -/
lemma QueueOp.run_poison {op : QueueOp} {db db' : QueueDb} {v : op.Val}
    (h : op.run db = .ok (v, db')) : db'.poison = db.poison ∨
      ∃ selected now errorType createdAt, op = .quarantine selected now errorType createdAt ∧
        ∃ row ∈ db.items, QueueDb.stillSelected selected now row = true := by
  have hheld : ∀ {itemId claimedBy claimToken : String} {f : QueueRow → QueueRow} {d d' : QueueDb},
      d.updateHeld itemId claimedBy claimToken f = .ok d' → d'.poison = d.poison := by
    intro _ _ _ _ _ _ hd
    obtain ⟨_, _, _, rfl⟩ := QueueDb.updateHeld_ok hd
    rfl
  cases op with
  | clock =>
    cases h
    exact Or.inl rfl
  | newToken =>
    cases h
    exact Or.inl rfl
  | add q item =>
    obtain ⟨_, _, _, _, rfl⟩ := QueueDb.add_row (QueueOp.tables_of_map h)
    exact Or.inl rfl
  | reclaimStale q now =>
    refine Or.inl (foldlM_ok_induction (P := fun d => d.poison = db.poison)
      (fun d stale d' _ hd hone => ?_) (QueueOp.tables_of_map h) rfl)
    obtain ⟨due, -, hone⟩ := Except.bind_eq_ok.mp hone
    dsimp only at hone
    split at hone <;>
    · cases hone
      exact hd
  | selectNext now =>
    cases h
    exact Or.inl rfl
  | quarantine selected now errorType createdAt =>
    cases h
    unfold QueueDb.quarantine
    dsimp only
    split
    · next hcount =>
      exact Or.inr ⟨selected, now, errorType, createdAt, rfl,
        Table.exists_of_rowcount_pos (by rw [hcount]; exact Nat.one_pos)⟩
    · exact Or.inl rfl
  | claim selected workerId now token =>
    change db.claim selected workerId now token = .ok (v, db') at h
    unfold QueueDb.claim at h
    split at h
    · cases h
      exact Or.inl rfl
    · obtain ⟨opened, hopened, h⟩ := Except.bind_eq_ok.mp h
      cases h
      unfold QueueDb.openAttempt at hopened
      split at hopened
      · cases hopened
      · cases hopened
        exact Or.inl rfl
  | bindTransaction itemId transactionId claimedBy claimToken =>
    exact Or.inl (hheld (QueueOp.tables_of_map h))
  | renewLease itemId claimedBy claimToken now =>
    exact Or.inl (hheld (QueueOp.tables_of_map h))
  | complete itemId claimedBy claimToken finishedAt =>
    obtain ⟨updated, hupdated, hrest⟩ := Except.bind_eq_ok.mp (QueueOp.tables_of_map h)
    cases hrest
    have hsame := hheld hupdated
    exact Or.inl hsame
  | failRead itemId claimedBy claimToken =>
    obtain ⟨_, -, heq⟩ := Except.map_eq_ok.mp h
    cases heq
    exact Or.inl rfl
  | failCommit q itemId claimedBy claimToken retry readCount now =>
    obtain ⟨due, -, h⟩ := Except.bind_eq_ok.mp h
    obtain ⟨updated, hupdated, h⟩ := Except.bind_eq_ok.mp h
    cases h
    have hsame := hheld hupdated
    exact Or.inl hsame
  | forceTransition q itemId requested reason retry now =>
    have hx := QueueOp.tables_of_map h
    unfold QueueDb.forceTransition at hx
    split at hx
    · cases hx
    · obtain ⟨due, -, hx⟩ := Except.bind_eq_ok.mp hx
      cases hx
      dsimp only
      split <;> exact Or.inl rfl

/-- A row that a statement takes, in a regular run, is taken when it is due. -/
lemma QueueRun.takenWhenDue {t : List QueueLabel} {P : QueuePool} (h : QueueRun t P)
    (hreg : ∀ l ∈ t, RegularStep l) {p : ℕ} {selected : QueueRow} {now : Datetime}
    (hread : ∃ prog evs, callOf p t = some (prog, evs) ∧ SelectedThenRead evs selected now)
    {row : QueueRow} (hrow : row ∈ P.shared.db.items)
    (hselected : QueueDb.stillSelected selected now row = true) :
    TakenWhenDue t p selected now row := by
  obtain ⟨hid, hpending, hdeadline, hdue⟩ := QueueDb.stillSelected_iff.mp hselected
  refine ⟨hid, hpending, hdeadline, fun due hmem => ?_, hread⟩
  have hnow : now.IsCanonical := by
    obtain ⟨prog, evs, hcur, evs₁, moment, evs₂, evs₃, hevs⟩ := hread
    have hmem : (⟨.clock, now⟩ : Event QueueOp QueueOp.Res) ∈ evs := by simp [hevs]
    obtain ⟨t₁, t₂, rfl⟩ := callOf_mem hcur hmem
    exact hreg (.answer p ⟨.clock, now⟩) (by simp)
  have hcanonical := h.canonicalDeadlines hreg row hrow due hmem
  rw [Option.mem_def.mp hmem] at hdue
  exact (hcanonical.text_le hnow).mp (by simpa [QueueDb.isDue] using hdue)

/-- **No delivery before its deadline.** Let every clock read UTC and every queue object schedule
its retries with `retry_available_at`. In every run of any number of workers from an empty queue,
in any interleaving, and for the next statement of any worker:

* an item that a claim or a quarantine changes was waiting, with the deadline the call of the
  worker has selected and not another one, and that deadline is not after a later reading of the
  worker's clock;
* only a claim makes an item be in progress, and only a quarantine records a poison event, of an
  item that it has taken so;
* the texts of two deadlines are ordered as their instants, and exactly those texts are accepted
  by `parse_available_at`.

**Proof sketch.** A call sends a claim or a quarantine only after it has selected the item and
read its clock since, for each way through its loop. The guard of the statement compares the
deadline in the row with the selected one, and with the reading as texts; the column only holds
canonical texts, for which this is the comparison of instants. -/
theorem delivered_when_due {fromisoformat : String → Except PyError Datetime}
    (hiso : ∀ d : Datetime, d.IsCanonical → fromisoformat (d.isoText true) = .ok d)
    {t : List QueueLabel} {P P' : QueuePool} (h : QueueRun t P) (hreg : ∀ l ∈ t, RegularStep l)
    {p : ℕ} {ev : Event QueueOp QueueOp.Res}
    (hstep : queueMachine.Step QueueCall P (.answer p ev) P') :
    (∀ row ∈ P.shared.db.items, ∀ row' ∈ P'.shared.db.items, row'.id = row.id → row' ≠ row →
      ∀ selected now, ev.op.takes = some (selected, now) → TakenWhenDue t p selected now row) ∧
    (∀ row' ∈ P'.shared.db.items, row'.status = .inProgress →
      (∃ row ∈ P.shared.db.items, row.id = row'.id ∧ row.status = .inProgress) ∨
      ∃ selected workerId now token, ev.op = .claim selected workerId now token) ∧
    (P'.shared.db.poison = P.shared.db.poison ∨
      ∃ selected now errorType createdAt, ev.op = .quarantine selected now errorType createdAt ∧
        ∃ row ∈ P.shared.db.items, TakenWhenDue t p selected now row) ∧
    (∀ a b u v, availableAtText (some a) = .ok (some u) → availableAtText (some b) = .ok (some v) →
      (u.isoText true ≤ v.isoText true ↔ a.instant ≤ b.instant)) ∧
    ∀ raw value, QueueRetry.parseAvailableAtText fromisoformat raw = .ok value ↔
      raw = value.map (Datetime.isoText true) ∧ ∀ d ∈ value, d.IsCanonical := by
  have hkeyed := h.accounted.keyed
  have hnext : QueueRun (t ++ [.answer p ev]) P' := h.snoc hstep
  obtain ⟨_, _, _, hsends⟩ := hnext.sends.1 t p ev [] rfl
  -- What the statement takes, the call has selected.
  have htakes : ∀ selected now, ev.op.takes = some (selected, now) →
      ∃ prog evs, callOf p t = some (prog, evs) ∧ SelectedThenRead evs selected now := by
    intro selected now htakes
    obtain ⟨prog, evs, hcur, hpre⟩ := (Machine.Run.calls (fun _ => TakesSelected)
      (fun _ _ _ _ => True) (fun _ _ _ => True) (fun _ hcall => hcall.takes) hnext
      fun _ => ⟨_, rfl⟩).1 t p ev [] rfl
    exact ⟨prog, evs, hcur, hpre (honest_of_forall (fun _ _ _ => trivial) _ _) _ _ htakes⟩
  have hdb : P'.shared.db = P.shared.db ∨
      ∃ v, ev.op.run P.shared.db = .ok (v, P'.shared.db) := by
    cases hstep with
    | answer _ hexec => exact QueueOp.Exec.db hexec
  refine ⟨fun row hrow row' hrow' hid hne selected now htake => ?_, fun row' hrow' hprogress => ?_,
    ?_, fun a b u v => availableAtText_le,
    fun raw value => QueueRetry.parseAvailableAtText_ok_iff hiso⟩
  · have hsame : P'.shared.db.items ≠ P.shared.db.items := fun heq =>
      hne (hkeyed.eq (heq ▸ hrow') hrow hid)
    rcases hdb with heq | ⟨v, hrun⟩
    · exact absurd (congrArg QueueDb.items heq) hsame
    obtain heq | ⟨f, hf, hitems⟩ := QueueOp.run_takes htake hkeyed hrun
    · exact absurd heq hsame
    rw [hitems] at hrow'
    obtain ⟨before, hbefore, rfl⟩ := Table.mem_update.mp hrow'
    by_cases hselected : QueueDb.stillSelected selected now before = true
    · rw [if_pos hselected] at hid
      obtain rfl := hkeyed.eq hbefore hrow ((hf before hselected).symm.trans hid)
      exact h.takenWhenDue hreg (htakes selected now htake) hrow hselected
    · rw [if_neg hselected] at hid hne
      exact absurd (hkeyed.eq hbefore hrow hid) hne
  · rcases hdb with heq | ⟨v, hrun⟩
    · exact Or.inl ⟨row', heq ▸ hrow', rfl, hprogress⟩
    · by_cases hclaim : ∃ selected workerId now token, ev.op = .claim selected workerId now token
      · exact Or.inr hclaim
      · exact Or.inl (QueueOp.run_inProgress hsends.legit (fun selected workerId now token heq =>
          hclaim ⟨selected, workerId, now, token, heq⟩) hkeyed hrun hrow' hprogress)
  · rcases hdb with heq | ⟨v, hrun⟩
    · exact Or.inl (congrArg QueueDb.poison heq)
    rcases QueueOp.run_poison hrun with heq | ⟨selected, now, errorType, createdAt, hop, row, hrow,
      hselected⟩
    · exact Or.inl heq
    · have htake : ev.op.takes = some (selected, now) := by
        rw [hop]
        rfl
      exact Or.inr ⟨selected, now, errorType, createdAt, hop, row, hrow,
        h.takenWhenDue hreg (htakes selected now htake) hrow hselected⟩

/-- `fromisoformat` of canonical texts, by a search through the first `bound` microseconds of the
calendar. -/
def searchIsoformat (bound : ℕ) (text : String) : Except PyError Datetime :=
  match (List.range bound).find? fun n : ℕ => (Datetime.ofInstant n).isoText true = text with
  | some n => .ok (.ofInstant n)
  | none => .error (.valueError ("Invalid isoformat string: " ++ pyRepr text))

/-- A search through the whole calendar finds a canonical value by its text. -/
lemma searchIsoformat_isoText (bound : ℕ) (hbound : (bound : ℤ) = Datetime.maxMicros)
    {d : Datetime} (h : d.IsCanonical) : searchIsoformat bound (d.isoText true) = .ok d := by
  have hcanonical : ∀ n : ℕ, n < bound → (Datetime.ofInstant n).IsCanonical := by
    intro n hn
    refine ⟨⟨Int.natCast_nonneg n, ?_, ?_⟩, rfl⟩
    · rw [← hbound]
      exact Int.ofNat_lt.mpr hn
    · rintro o ⟨⟩
      decide
  have hnonneg := h.valid.nonneg
  have hlt := h.valid.lt
  rw [← hbound] at hlt
  have hself : Datetime.ofInstant d.micros.toNat = d := by
    have hutc := h.utc
    cases d
    simp only at hutc hnonneg
    simp [Datetime.ofInstant, hutc, Int.toNat_of_nonneg hnonneg]
  clear hbound
  unfold searchIsoformat
  cases hfind : (List.range bound).find? fun n : ℕ =>
    (Datetime.ofInstant n).isoText true = d.isoText true with
  | none =>
    have hmem : d.micros.toNat ∈ List.range bound := by
      rw [List.mem_range]
      omega
    have hnot := List.find?_eq_none.mp hfind _ hmem
    rw [hself] at hnot
    simp at hnot
  | some n =>
    have hn := List.mem_range.mp (List.mem_of_find?_eq_some hfind)
    have htext : (Datetime.ofInstant n).isoText true = d.isoText true := by
      simpa using List.find?_some hfind
    exact congrArg Except.ok ((hcanonical n hn).text_inj h htext)

/-- A queue that tries again a second after a failure. -/
def delayedQueue : SqliteQueue :=
  { plainQueue with retryAvailableAt := QueueRetry.retryAvailableAt fun _ => some 1000000 }

/-- The pool after the worker that has claimed the item fails it. -/
def rescheduledPool : QueuePool :=
  claimedPool.solve (QueueOp.answer ⟨0, some 0⟩) 1
    ((delayedQueue.fail "i" "w" (ClaimToken.ofNumber 0).text true).program .outcome)

/-- The pool in which it looks for an item again, at second 2. -/
def lookingPool : QueuePool :=
  ⟨rescheduledPool.shared,
    Function.update rescheduledPool.procs 1 (delayedQueue.nextItemCall "w" 1)⟩

/-- The pool in which it is about to claim. -/
def duePool : QueuePool :=
  lookingPool.follow QueueOp.answer (List.replicate 6 (1, ⟨2000000, some 0⟩))

/-- The steps that lead there. -/
def dueLabels : List QueueLabel :=
  let start : Datetime := ⟨0, some 0⟩
  let later : Datetime := ⟨2000000, some 0⟩
  let token := (ClaimToken.ofNumber 0).text
  [.start 0 ((plainQueue.add plainItem).program fun _ => .done),
    .answer 0 ⟨.add plainQueue plainItem, .ok ()⟩,
    .start 1 (plainQueue.nextItemCall "w" 1),
    .answer 1 ⟨.clock, start⟩, .answer 1 ⟨.reclaimStale plainQueue start, .ok ()⟩,
    .answer 1 ⟨.clock, start⟩,
    .answer 1 ⟨.selectNext start, .ok addedPool.shared.db.items.head?⟩,
    .answer 1 ⟨.clock, start⟩, .answer 1 ⟨.newToken, .ofNumber 0⟩,
    .answer 1 ⟨.claim (addedPool.shared.db.items.head?.getD default) "w" start (.ofNumber 0),
      .ok claimedPool.shared.db.items.head?⟩,
    .start 1 ((delayedQueue.fail "i" "w" token true).program .outcome),
    .answer 1 ⟨.failRead "i" "w" token, .ok 0⟩, .answer 1 ⟨.clock, start⟩,
    .answer 1 ⟨.failCommit delayedQueue "i" "w" token true 0 start, .ok .retryScheduled⟩,
    .start 1 (delayedQueue.nextItemCall "w" 1),
    .answer 1 ⟨.clock, later⟩, .answer 1 ⟨.reclaimStale delayedQueue later, .ok ()⟩,
    .answer 1 ⟨.clock, later⟩,
    .answer 1 ⟨.selectNext later, .ok rescheduledPool.shared.db.items.head?⟩,
    .answer 1 ⟨.clock, later⟩, .answer 1 ⟨.newToken, .ofNumber 1⟩]

/-- They are a run. -/
lemma duePool_run : QueueRun dueLabels duePool ∧ duePool.shared.ShortTokens := by
  have hnone : idlePool.shared.ShortTokens := by
    simp [QueueSystem.ShortTokens, QueueSystem.init, idlePool]
  obtain ⟨hadd, hshort⟩ := Machine.Run.solve (QueueOp.exec_answer ⟨0, some 0⟩)
    (Machine.Run.nil idlePool : QueueRun [] idlePool) hnone (p := 0) rfl
    (QueueCall.add plainQueue plainItem ⟨rfl, rfl, rfl, rfl⟩)
  obtain ⟨hnext, hshort⟩ := Machine.Run.solve (QueueOp.exec_answer ⟨0, some 0⟩) hadd hshort
    (p := 1) rfl (QueueCall.nextItem plainQueue "w" 1)
  obtain ⟨hfail, hshort⟩ := Machine.Run.solve (QueueOp.exec_answer ⟨0, some 0⟩) hnext hshort
    (p := 1) rfl (QueueCall.fail delayedQueue "i" "w" (ClaimToken.ofNumber 0).text true)
  have hlooking := hfail.snoc (.start (p := 1) rfl (QueueCall.nextItem delayedQueue "w" 1))
  exact hlooking.follow QueueOp.exec_answer (List.replicate 6 (1, ⟨2000000, some 0⟩)) hshort

/-- Their clocks read UTC, and their queues delay retries. -/
lemma dueLabels_regular : ∀ l ∈ dueLabels, RegularStep l := by
  have hstart : (⟨0, some 0⟩ : Datetime).IsCanonical :=
    ⟨⟨by decide, by decide, by rintro o ⟨⟩; decide⟩, rfl⟩
  have hlater : (⟨2000000, some 0⟩ : Datetime).IsCanonical :=
    ⟨⟨by decide, by decide, by rintro o ⟨⟩; decide⟩, rfl⟩
  have hplain : ∀ q ∈ some plainQueue, q.DelaysRetries := fun _ hq =>
    Option.mem_some.mp hq ▸ ⟨fun _ => none, rfl⟩
  have hdelayed : ∀ q ∈ some delayedQueue, q.DelaysRetries := fun _ hq =>
    Option.mem_some.mp hq ▸ ⟨fun _ => some 1000000, rfl⟩
  have hno : ∀ q ∈ (none : Option SqliteQueue), q.DelaysRetries := by simp
  simp only [dueLabels, List.forall_mem_cons]
  exact ⟨trivial, hplain, trivial, hstart, hplain, hstart, hno, hstart, hno, hno, trivial, hno,
    hstart, hdelayed, trivial, hlater, hdelayed, hlater, hno, hlater, hno, by simp⟩

/-- The row of the item that is to be tried again. -/
def rescheduledRow : QueueRow := rescheduledPool.shared.db.items.head?.getD default

/-- The claim is the next statement. -/
lemma duePool_claims : ∃ next, duePool.procs 1 =
    .call (.claim rescheduledRow "w" ⟨2000000, some 0⟩ (.ofNumber 1)) next := ⟨_, rfl⟩

/-- It takes the item. -/
lemma duePool_claimed :
    ∃ row ∈ ((QueueOp.claim rescheduledRow "w" ⟨2000000, some 0⟩ (.ofNumber 1)).answer
      ⟨2000000, some 0⟩ duePool.shared).2.db.items,
      row.id = rescheduledRow.id ∧ row.status = .inProgress := by
  decide +kernel

/-- An item that is to be tried again at second 1 is claimed at second 2. -/
theorem delivered_when_due_rescheduled : ∃ t P P' now token answer, QueueRun t P ∧
    queueMachine.Step QueueCall P (.answer 1 ⟨.claim rescheduledRow "w" now token, answer⟩) P' ∧
    rescheduledRow.availableAt = some ⟨1000000, some 0⟩ ∧
    ∃ row ∈ P.shared.db.items, ∃ row' ∈ P'.shared.db.items, row'.id = row.id ∧
      row'.status = .inProgress ∧ TakenWhenDue t 1 rescheduledRow now row := by
  obtain ⟨hrun, hshort⟩ := duePool_run
  obtain ⟨next, hcall⟩ := duePool_claims
  have hstep : queueMachine.Step QueueCall _ _ _ := .answer hcall
    (QueueOp.exec_answer ⟨2000000, some 0⟩ duePool.shared _ hshort).1
  have hrow : rescheduledRow ∈ duePool.shared.db.items := List.mem_of_mem_head? rfl
  obtain ⟨row', hrow', hid, hclaimed⟩ := duePool_claimed
  have hchanged : row' ≠ rescheduledRow := by
    rintro rfl
    cases hclaimed
  exact ⟨dueLabels, duePool, _, _, _, _, hrun, hstep, rfl, rescheduledRow, hrow, row', hrow', hid,
    hclaimed, (delivered_when_due (fun _ => searchIsoformat_isoText (3652059 * 86400000000) rfl)
      hrun dueLabels_regular hstep).1 rescheduledRow hrow row' hrow' hid hchanged _ _ rfl⟩
