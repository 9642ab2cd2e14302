import RpaCore.Queue.Deadlines
import RpaCore.Queue.Pages

set_option relaxedAutoImplicit false
set_option autoImplicit false

/-!
# The loop of `next_item`

A worker that is not interfered with, at a fixed clock: after the lease reclaim the loop goes
through the eligible items in the order of the selection. It quarantines an item whose payload is
not decoded, and claims the first one whose payload is. An error of the decoder that is not among
those the loop expects leaves `next_item` instead, and the item stays where it is.

## Main definitions

* `QueueDb.eligible` — the items that are selected, in the order of the selection.
* `QueueOp.alone` — how the statements of a worker that runs alone are answered.
* `Settles` — what the loop does to the tables, and returns, if no payload blocks it.
* `Expected` — the payload errors of the skipped items are those that the loop expects.

## Main results

* `QueueDb.eligible_quarantine` — a quarantine takes an item from the selection.
* `payload_never_blocks_iff` — no payload blocks the loop exactly if the errors are expected.
-/

/-! ## Selected items -/

namespace QueueDb

/-- A pending item that is due. -/
def isEligible (now : Datetime) (row : QueueRow) : Bool :=
  row.status = .pending && isDue now row.availableAt

/-- The rows that the `SELECT` of `next_item` chooses from, in its order. -/
def eligible (now : Datetime) (db : QueueDb) : List QueueRow :=
  (db.items.filter (isEligible now)).insertionSort fun a b => before a b = true

/-- The selection takes the first of them. -/
lemma selectNext_eq (now : Datetime) (db : QueueDb) : db.selectNext now = (db.eligible now).head? :=
  rfl

variable {now : Datetime} {db db' : QueueDb} {row : QueueRow}

/-- The rows that are selected. -/
lemma mem_eligible : row ∈ db.eligible now ↔ row ∈ db.items ∧ isEligible now row = true := by
  rw [eligible, List.mem_insertionSort, List.mem_filter]

/-- The order of the selection is the order of the keys. -/
lemma eligible_eq_select (now : Datetime) (db : QueueDb) :
    db.eligible now = Keyset.select QueueRow.pageKey none (db.items.filter (isEligible now)) := by
  have hbefore : ∀ a b : QueueRow, before a b = true ↔ a.pageKey ≤ b.pageKey :=
    fun _ _ => QueueRow.before_iff
  have hall : ∀ r : QueueRow, (fun _ => true) r =
      (none : Option (String ×ₗ String)).all fun k => decide (k < r.pageKey) := fun _ => rfl
  rw [eligible, ← Keyset.sorted_eq_select hbefore hall, List.filter_true]

/-- Rows with different ids have different keys. -/
lemma keyed_pageKey {t : List QueueRow} (h : Table.Keyed QueueRow.id t) :
    Table.Keyed QueueRow.pageKey t := by
  refine List.Nodup.of_map (fun k => (ofLex k).2) ?_
  rw [List.map_map]
  exact h

/-- The selected rows have increasing keys. -/
lemma pairwise_eligible (hkeyed : Table.Keyed QueueRow.id db.items) (now : Datetime) :
    (db.eligible now).Pairwise fun a b => a.pageKey < b.pageKey := by
  rw [eligible_eq_select]
  exact Keyset.pairwise_select _ (keyed_pageKey (hkeyed.filter _))

/-- **Taking the first item**: if it is not eligible any more and the other rows are as they were,
the selection goes on with the next one. -/
lemma eligible_tail (hkeyed : Table.Keyed QueueRow.id db.items)
    (hkeyed' : Table.Keyed QueueRow.id db'.items) {rest : List QueueRow}
    (h : db.eligible now = row :: rest) {f : QueueRow → QueueRow}
    (hitems : db'.items = db.items.map fun r => if r = row then f r else r)
    (hf : isEligible now (f row) = false) : db'.eligible now = rest := by
  have hsorted := pairwise_eligible hkeyed now
  rw [h] at hsorted
  obtain ⟨hfirst, hrest⟩ := List.pairwise_cons.mp hsorted
  refine Keyset.eq_of_pairwise (pairwise_eligible hkeyed' now) hrest fun r => ?_
  have hmem : r ∈ row :: rest ↔ r ∈ db.items ∧ isEligible now r = true := h ▸ mem_eligible
  rw [mem_eligible, hitems, List.mem_map]
  constructor
  · rintro ⟨⟨before, hbefore, rfl⟩, heligible⟩
    split at heligible
    · next heq =>
      rw [heq, hf] at heligible
      cases heligible
    · next hne =>
      rw [if_neg hne]
      rcases List.mem_cons.mp (h ▸ mem_eligible.mpr ⟨hbefore, heligible⟩) with heq | hmem
      · exact absurd heq hne
      · exact hmem
  · intro hr
    obtain ⟨hitem, heligible⟩ := hmem.mp (List.mem_cons_of_mem _ hr)
    have hne : r ≠ row := by
      rintro rfl
      exact lt_irrefl _ (hfirst _ hr)
    exact ⟨⟨r, hitem, if_neg hne⟩, heligible⟩

end QueueDb

/-! ## One round -/

/-- The row of an item in quarantine. -/
def QueueRow.quarantined (row : QueueRow) : QueueRow :=
  { row with
    status := .failed
    claimedBy := ""
    claimedAt := none
    claimToken := ""
    availableAt := none }

/-- The row of a claimed item. -/
def QueueRow.claimed (workerId : String) (now : Datetime) (token : ClaimToken) (row : QueueRow) :
    QueueRow :=
  { row with
    status := .inProgress
    claimedBy := workerId
    claimedAt := some now
    claimToken := token.text
    availableAt := none }

namespace QueueDb

variable {now : Datetime} {db : QueueDb} {row : QueueRow}

/-- A selected row that nobody has changed is found by its guard, and no other row. -/
lemma stillSelected_iff_eq (hkeyed : Table.Keyed QueueRow.id db.items)
    (hrow : row ∈ db.eligible now) :
    ∀ r ∈ db.items, (stillSelected row now r = true ↔ r = row) := by
  obtain ⟨hmem, heligible⟩ := mem_eligible.mp hrow
  simp only [isEligible, Bool.and_eq_true, decide_eq_true_eq] at heligible
  intro r hr
  rw [stillSelected_iff]
  constructor
  · rintro ⟨hid, -⟩
    exact hkeyed.eq hr hmem hid
  · rintro rfl
    exact ⟨rfl, heligible.1, rfl, heligible.2⟩

/-- The update of a selected row that nobody has changed. -/
lemma update_stillSelected (hkeyed : Table.Keyed QueueRow.id db.items)
    (hrow : row ∈ db.eligible now) (f : QueueRow → QueueRow) :
    Table.update (stillSelected row now) f db.items =
      db.items.map fun r => if r = row then f r else r := by
  refine List.map_congr_left fun r hr => ?_
  by_cases heq : r = row
  · rw [if_pos heq, if_pos ((stillSelected_iff_eq hkeyed hrow r hr).mpr heq)]
  · rw [if_neg heq, if_neg fun h => heq ((stillSelected_iff_eq hkeyed hrow r hr).mp h)]

/-- It finds one row. -/
lemma rowcount_stillSelected (hkeyed : Table.Keyed QueueRow.id db.items)
    (hrow : row ∈ db.eligible now) : Table.rowcount (stillSelected row now) db.items = 1 :=
  hkeyed.rowcount_eq_one (fun _ hr => (stillSelected_iff.mp hr).1) (mem_eligible.mp hrow).1
    ((stillSelected_iff_eq hkeyed hrow row (mem_eligible.mp hrow).1).mpr rfl)

/-- The quarantine of a selected row that nobody has changed. -/
lemma quarantine_eq (hkeyed : Table.Keyed QueueRow.id db.items) (hrow : row ∈ db.eligible now)
    (errorType : String) (createdAt : Datetime) :
    db.quarantine row now errorType createdAt =
      { db with
        items := db.items.map fun r => if r = row then r.quarantined else r
        poison := db.poison ++ [{
          sequence := nextSequence (db.poison.map QueuePoisonRow.sequence)
          itemId := row.id
          errorType := errorType
          createdAt := createdAt }] } := by
  have hupdate := update_stillSelected hkeyed hrow QueueRow.quarantined
  unfold quarantine
  dsimp only
  rw [if_pos (rowcount_stillSelected hkeyed hrow)]
  change recordPoisonEvent row.id errorType createdAt { db with
    items := Table.update (stillSelected row now) QueueRow.quarantined db.items } = _
  rw [hupdate]
  rfl

/-- The claim of a selected row that nobody has changed, under a fresh token. -/
lemma claim_eq (hkeyed : Table.Keyed QueueRow.id db.items) (hrow : row ∈ db.eligible now)
    (workerId : String) {token : ClaimToken}
    (hfresh : (row.id, token.text) ∉ db.attempts.map fun a => (a.itemId, a.claimToken)) :
    db.claim row workerId now token = .ok (some (row.claimed workerId now token),
      { db with
        items := db.items.map fun r => if r = row then r.claimed workerId now token else r
        attempts := db.attempts ++ [{
          sequence := nextSequence (db.attempts.map QueueAttemptRow.sequence)
          itemId := row.id
          claimToken := token.text
          claimedBy := workerId
          startedAt := now
          finishedAt := none
          outcome := none }] }) := by
  have hupdate := update_stillSelected hkeyed hrow (QueueRow.claimed workerId now token)
  have hmem := (mem_eligible.mp hrow).1
  have hfind : (db.items.map fun r => if r = row then r.claimed workerId now token else r).find?
      (fun r => r.id = row.id) = some (row.claimed workerId now token) := by
    have hkeyed' : Table.Keyed QueueRow.id
        (db.items.map fun r => if r = row then r.claimed workerId now token else r) := by
      rw [← hupdate]
      exact hkeyed.update fun _ _ _ => rfl
    refine hkeyed'.find?_key.mpr ⟨List.mem_map.mpr ⟨row, hmem, if_pos rfl⟩, rfl⟩
  unfold claim
  rw [if_neg (by rw [rowcount_stillSelected hkeyed hrow]; simp)]
  change (openAttempt row.id token.text workerId now { db with
    items := Table.update (stillSelected row now) (QueueRow.claimed workerId now token)
      db.items } >>= fun opened => pure (opened.items.find? fun r => r.id = row.id, opened)) = _
  rw [hupdate]
  unfold openAttempt
  rw [if_neg hfresh]
  exact congrArg (fun found => Except.ok (found, _)) hfind

end QueueDb

/-! ## Running alone -/

/-- How the statements of a worker that runs alone are answered: the database lets it in, its
clock stands still, and its tokens come from a supply. -/
def QueueOp.alone (moment : Datetime) (tokens : ℕ → ClaimToken) (s : QueueSystem) :
    (op : QueueOp) → op.Res × QueueSystem
  | .newToken => (tokens s.issued.length, ⟨s.db, tokens s.issued.length :: s.issued⟩)
  | op => op.answer moment s

section Alone

variable {moment : Datetime} {tokens : ℕ → ClaimToken} {s : QueueSystem}

/-- The clock stands still. -/
@[simp] lemma QueueOp.alone_clock : QueueOp.alone moment tokens s .clock = (moment, s) := rfl

/-- The next token of the supply. -/
@[simp] lemma QueueOp.alone_newToken : QueueOp.alone moment tokens s .newToken =
    (tokens s.issued.length, ⟨s.db, tokens s.issued.length :: s.issued⟩) := rfl

/-- A selection. -/
@[simp] lemma QueueOp.alone_selectNext (now : Datetime) :
    QueueOp.alone moment tokens s (.selectNext now) = (.ok (s.db.selectNext now), s) := rfl

/-- A quarantine. -/
@[simp] lemma QueueOp.alone_quarantine (row : QueueRow) (now : Datetime) (errorType : String)
    (createdAt : Datetime) :
    QueueOp.alone moment tokens s (.quarantine row now errorType createdAt) =
      (.ok (), ⟨s.db.quarantine row now errorType createdAt, s.issued⟩) := rfl

/-- A claim that commits. -/
lemma QueueOp.alone_claim {row : QueueRow} {workerId : String} {now : Datetime}
    {token : ClaimToken} {claimed : Option QueueRow} {db : QueueDb}
    (h : s.db.claim row workerId now token = .ok (claimed, db)) :
    QueueOp.alone moment tokens s (.claim row workerId now token) =
      (.ok claimed, ⟨db, s.issued⟩) := by
  have hrun : (QueueOp.claim row workerId now token).run s.db = .ok (claimed, db) := h
  simp only [alone, answer, hrun]

/-- A lease reclaim that commits. -/
lemma QueueOp.alone_reclaimStale {q : SqliteQueue} {now : Datetime} {db : QueueDb}
    (h : s.db.reclaimStale q now = .ok db) :
    QueueOp.alone moment tokens s (.reclaimStale q now) = (.ok (), ⟨db, s.issued⟩) := by
  have hrun : (QueueOp.reclaimStale q now).run s.db = .ok ((), db) := by
    simp [run, h, Except.map]
  simp only [alone, answer, hrun]

end Alone

/-- `parse_available_at` accepts a canonical deadline. -/
lemma parseAvailableAt_canonical {raw : Option Datetime} (h : ∀ due ∈ raw, due.IsCanonical) :
    parseAvailableAt raw = .ok raw := by
  refine Except.bind_eq_ok.mpr ⟨raw, ?_, if_pos rfl⟩
  cases raw with
  | none => rfl
  | some d => exact availableAtText_canonical (h d rfl)

section Rounds

variable {q : SqliteQueue} {workerId : String} {moment : Datetime} {tokens : ℕ → ClaimToken}
  {s : QueueSystem} {n : ℕ} {Q : Option (Option QueueItem) → Unit → QueueSystem → Prop}
  {R : PyError → Unit → QueueSystem → Prop}

/-- The tables after a claim that nobody has interfered with. -/
def QueueDb.withClaim (row : QueueRow) (workerId : String) (now : Datetime) (token : ClaimToken)
    (db : QueueDb) : QueueDb :=
  { db with
    items := db.items.map fun r => if r = row then r.claimed workerId now token else r
    attempts := db.attempts ++ [{
      sequence := nextSequence (db.attempts.map QueueAttemptRow.sequence)
      itemId := row.id
      claimToken := token.text
      claimedBy := workerId
      startedAt := now
      finishedAt := none
      outcome := none }] }

/-- **The rule of one round**: it ends the loop, returns a claimed item, raises, or goes on with
the item in quarantine. -/
lemma wp_round (hkeyed : Table.Keyed QueueRow.id s.db.items)
    (hdue : ∀ row ∈ s.db.eligible moment, ∀ due ∈ row.availableAt, due.IsCanonical)
    (hfresh : ∀ a ∈ s.db.attempts, a.claimToken ≠ (tokens s.issued.length).text)
    (hnil : s.db.eligible moment = [] → Q (some none) () s)
    (hclaim : ∀ row rest payload, s.db.eligible moment = row :: rest →
      loadPayload q.jsonLoads row.payload = .ok payload →
      Q (some (some ((row.claimed workerId moment (tokens s.issued.length)).toItem payload))) ()
        ⟨s.db.withClaim row workerId moment (tokens s.issued.length),
          tokens s.issued.length :: s.issued⟩)
    (hraise : ∀ row rest err, s.db.eligible moment = row :: rest →
      loadPayload q.jsonLoads row.payload = .error err → err.payloadErrorType = none → R err () s)
    (hskip : ∀ row rest err errorType, s.db.eligible moment = row :: rest →
      loadPayload q.jsonLoads row.payload = .error err → err.payloadErrorType = some errorType →
      (q.nextItemLoop workerId n).wp (answeredBy (QueueOp.alone moment tokens)) Q R ()
        ⟨s.db.quarantine row moment errorType moment, s.issued⟩) :
    (q.nextItemLoop workerId (n + 1)).wp (answeredBy (QueueOp.alone moment tokens)) Q R () s := by
  simp only [SqliteQueue.nextItemLoop, Proc.wp_bind, SqliteQueue.now, SqliteQueue.newToken,
    Proc.wp_call_answeredBy, Proc.wp_ofExcept, QueueOp.alone_clock, QueueOp.alone_selectNext,
    QueueDb.selectNext_eq]
  cases hrows : s.db.eligible moment with
  | nil => exact hnil hrows
  | cons row rest =>
    have hrow : row ∈ s.db.eligible moment := hrows ▸ List.mem_cons_self
    simp only [List.head?_cons, Proc.wp_bind, Proc.wp_ofExcept,
      parseAvailableAt_canonical (hdue row hrow)]
    cases hload : loadPayload q.jsonLoads row.payload with
    | error err =>
      cases htype : err.payloadErrorType with
      | none =>
        simp only [htype, Proc.wp_throw]
        exact hraise row rest err hrows hload htype
      | some errorType =>
        simp only [htype, Proc.wp_bind, Proc.wp_call_answeredBy, Proc.wp_ofExcept,
          QueueOp.alone_clock, QueueOp.alone_quarantine]
        exact hskip row rest err errorType hrows hload htype
    | ok payload =>
      have hnew : (row.id, (tokens s.issued.length).text) ∉
          s.db.attempts.map fun a => (a.itemId, a.claimToken) := by
        intro hmem
        obtain ⟨a, ha, heq⟩ := List.mem_map.mp hmem
        exact hfresh a ha (Prod.mk.inj heq).2
      have hcommit := QueueDb.claim_eq hkeyed hrow workerId hnew
      simp only [Proc.wp_bind, Proc.wp_call_answeredBy, Proc.wp_ofExcept, QueueOp.alone_clock,
        QueueOp.alone_newToken]
      rw [QueueOp.alone_claim (s := ⟨s.db, tokens s.issued.length :: s.issued⟩) hcommit]
      exact hclaim row rest payload hrows hload

end Rounds

/-! ## The whole loop -/

/-- The payload of an item is decoded. -/
def SqliteQueue.decodes (q : SqliteQueue) (row : QueueRow) : Bool :=
  (loadPayload q.jsonLoads row.payload).isOk

/-- The items that the loop has to skip: those before the first one that is decoded. -/
def SqliteQueue.skipped (q : SqliteQueue) (rows : List QueueRow) : List QueueRow :=
  rows.takeWhile fun row => !q.decodes row

/-- What becomes of a row, if some are skipped and one is claimed. -/
def QueueRow.settled (workerId : String) (now : Datetime) (token : ClaimToken)
    (skipped : List QueueRow) (first : Option QueueRow) (row : QueueRow) : QueueRow :=
  if row ∈ skipped then row.quarantined
  else if first = some row then row.claimed workerId now token
  else row

/-- **No payload blocks the queue**: of the eligible `rows`, in their order, the first one whose
payload is decoded is claimed and returned, those before it are in quarantine with one poison event
each, and nothing else has changed. -/
structure Settles (q : SqliteQueue) (workerId : String) (now : Datetime) (token : ClaimToken)
    (rows : List QueueRow) (db db' : QueueDb) (answer : Option QueueItem) : Prop where
  answer : (rows.find? q.decodes = none ∧ answer = none) ∨ ∃ row payload,
    rows.find? q.decodes = some row ∧ loadPayload q.jsonLoads row.payload = .ok payload ∧
      answer = some ((row.claimed workerId now token).toItem payload)
  items : db'.items =
    db.items.map (QueueRow.settled workerId now token (q.skipped rows) (rows.find? q.decodes))
  poison : ∃ events, db'.poison = db.poison ++ events ∧
    events.map QueuePoisonRow.itemId = (q.skipped rows).map QueueRow.id
  attempts : ∃ opened, db'.attempts = db.attempts ++ opened ∧
    opened.map QueueAttemptRow.itemId = (rows.find? q.decodes).toList.map QueueRow.id
  admin : db'.admin = db.admin

/-- The payloads of the skipped items fail with the errors that the loop expects: the text is not
JSON, or its value is not a JSON-safe object. -/
def SqliteQueue.Expected (q : SqliteQueue) (rows : List QueueRow) : Prop :=
  ∀ row ∈ q.skipped rows, ∀ err, loadPayload q.jsonLoads row.payload = .error err →
    err.payloadErrorType.isSome = true

section Loop

variable {q : SqliteQueue} {workerId : String} {moment : Datetime} {token : ClaimToken}
  {row : QueueRow} {rest : List QueueRow} {db db' : QueueDb} {answer : Option QueueItem}

/-- A decoded payload. -/
lemma SqliteQueue.decodes_of_ok {payload : PyVal}
    (h : loadPayload q.jsonLoads row.payload = .ok payload) : q.decodes row = true := by
  simp [decodes, h, Except.isOk, Except.toBool]

/-- A payload that is not decoded. -/
lemma SqliteQueue.not_decodes_of_error {err : PyError}
    (h : loadPayload q.jsonLoads row.payload = .error err) : q.decodes row = false := by
  simp [decodes, h, Except.isOk, Except.toBool]

/-- The loop ends at once without an eligible item. -/
lemma settles_nil : Settles q workerId moment token [] db db none := by
  refine ⟨Or.inl ⟨rfl, rfl⟩, ?_, ⟨[], by simp, rfl⟩, ⟨[], by simp, rfl⟩, rfl⟩
  have hsame : ∀ r ∈ db.items, QueueRow.settled workerId moment token [] none r = id r := by
    simp [QueueRow.settled]
  exact ((List.map_congr_left hsame).trans (List.map_id _)).symm

/-- The loop ends with the first item if that is decoded. -/
lemma settles_claim {payload : PyVal} (h : loadPayload q.jsonLoads row.payload = .ok payload) :
    Settles q workerId moment token (row :: rest) db (db.withClaim row workerId moment token)
      (some ((row.claimed workerId moment token).toItem payload)) := by
  have hdecodes := SqliteQueue.decodes_of_ok h
  have hskipped : q.skipped (row :: rest) = [] := by simp [SqliteQueue.skipped, hdecodes]
  have hfind : (row :: rest).find? q.decodes = some row := by simp [hdecodes]
  refine ⟨Or.inr ⟨row, payload, hfind, h, rfl⟩, ?_, ⟨[], by simp [QueueDb.withClaim], ?_⟩,
    ⟨_, rfl, by rw [hfind]; rfl⟩, rfl⟩
  · rw [hskipped, hfind]
    refine List.map_congr_left fun r _ => ?_
    simp [QueueRow.settled, eq_comm]
  · rw [hskipped]
    rfl

/-- The loop goes on with the rest if the first item is skipped. -/
lemma Settles.skip {errorType : String} (hkeyed : Table.Keyed QueueRow.id db.items)
    (hrows : db.eligible moment = row :: rest) (hdecodes : q.decodes row = false)
    (h : Settles q workerId moment token rest (db.quarantine row moment errorType moment) db'
      answer) : Settles q workerId moment token (row :: rest) db db' answer := by
  have hrow : row ∈ db.eligible moment := hrows ▸ List.mem_cons_self
  have hskipped : q.skipped (row :: rest) = row :: q.skipped rest := by
    simp [SqliteQueue.skipped, hdecodes]
  have hfind : (row :: rest).find? q.decodes = rest.find? q.decodes := by simp [hdecodes]
  have hpending : ∀ r ∈ rest, r.status = .pending := by
    intro r hr
    have := (QueueDb.mem_eligible.mp (hrows ▸ List.mem_cons_of_mem _ hr)).2
    simp only [QueueDb.isEligible, Bool.and_eq_true, decide_eq_true_eq] at this
    exact this.1
  have hnotin : row.quarantined ∉ rest := fun hmem => by cases hpending _ hmem
  obtain ⟨events, hpoison, hids⟩ := h.poison
  rw [QueueDb.quarantine_eq hkeyed hrow] at hpoison
  refine ⟨?_, ?_, ⟨_, by rw [hpoison, List.append_assoc], ?_⟩, ?_, ?_⟩
  · rw [hfind]
    exact h.answer
  · rw [h.items, QueueDb.quarantine_eq hkeyed hrow, hskipped, hfind, List.map_map]
    refine List.map_congr_left fun r _ => ?_
    simp only [Function.comp, QueueRow.settled, List.mem_cons]
    by_cases heq : r = row
    · have h₁ : row.quarantined ∉ q.skipped rest := fun hmem =>
        hnotin (List.takeWhile_subset _ hmem)
      have h₂ : rest.find? q.decodes ≠ some row.quarantined := fun hsome =>
        hnotin (List.mem_of_find?_eq_some hsome)
      simp [heq, h₁, h₂]
    · simp [heq]
  · simp [hskipped, hids]
  · obtain ⟨opened, hopened, hopenedIds⟩ := h.attempts
    rw [QueueDb.quarantine_eq hkeyed hrow] at hopened
    rw [hfind]
    exact ⟨opened, hopened, hopenedIds⟩
  · rw [h.admin, QueueDb.quarantine_eq hkeyed hrow]

/-- A quarantine keeps the ids of the items. -/
lemma QueueDb.keyed_quarantine (hkeyed : Table.Keyed QueueRow.id db.items) (row : QueueRow)
    (now : Datetime) (errorType : String) (createdAt : Datetime) :
    Table.Keyed QueueRow.id (db.quarantine row now errorType createdAt).items := by
  rcases QueueDb.quarantine_cases row now errorType createdAt hkeyed with
    ⟨hitems, -⟩ | ⟨f, _, -, -, -, hreleased, -, -, hitems, -⟩
  · rwa [hitems]
  · rw [hitems]
    exact hkeyed.update fun r _ hr => (hreleased r hr).id

/-- A quarantine takes the first item from the selection. -/
lemma QueueDb.eligible_quarantine (hkeyed : Table.Keyed QueueRow.id db.items)
    (hrows : db.eligible moment = row :: rest) (errorType : String) (createdAt : Datetime) :
    (db.quarantine row moment errorType createdAt).eligible moment = rest := by
  have hrow : row ∈ db.eligible moment := hrows ▸ List.mem_cons_self
  refine eligible_tail hkeyed (keyed_quarantine hkeyed row moment errorType createdAt) hrows
    (f := QueueRow.quarantined) ?_ rfl
  rw [quarantine_eq hkeyed hrow]

variable {tokens : ℕ → ClaimToken} {s : QueueSystem} {rows : List QueueRow} {n : ℕ}

/-- **The loop if the errors are expected.** It returns before it is cut off.

**Proof sketch.** Induction on the eligible items: each round in which the first one is skipped
takes it from the selection and leaves the others. -/
theorem wp_loop_settles (hkeyed : Table.Keyed QueueRow.id s.db.items)
    (hrows : s.db.eligible moment = rows)
    (hdue : ∀ row ∈ rows, ∀ due ∈ row.availableAt, due.IsCanonical)
    (hfresh : ∀ a ∈ s.db.attempts, a.claimToken ≠ (tokens s.issued.length).text)
    (hexpected : q.Expected rows) (hn : rows.length < n) :
    (q.nextItemLoop workerId n).wp (answeredBy (QueueOp.alone moment tokens))
      (fun a _ s' => ∃ item, a = some item ∧
        Settles q workerId moment (tokens s.issued.length) rows s.db s'.db item)
      (fun _ _ _ => False) () s := by
  induction rows generalizing s n with
  | nil =>
    obtain ⟨n, rfl⟩ := Nat.exists_eq_add_of_lt hn
    have hnone : ∀ row rest, s.db.eligible moment ≠ row :: rest := by simp [hrows]
    exact wp_round hkeyed (by simp [hrows]) hfresh (fun _ => ⟨none, rfl, settles_nil⟩)
      (fun row rest _ hcons => absurd hcons (hnone row rest))
      (fun row rest _ hcons => absurd hcons (hnone row rest))
      fun row rest _ _ hcons => absurd hcons (hnone row rest)
  | cons row rest ih =>
    obtain ⟨n, rfl⟩ := Nat.exists_eq_add_of_lt hn
    have hskipped : ∀ err, loadPayload q.jsonLoads row.payload = .error err →
        q.skipped (row :: rest) = row :: q.skipped rest := by
      intro err hload
      simp [SqliteQueue.skipped, SqliteQueue.not_decodes_of_error hload]
    refine wp_round hkeyed (hrows ▸ hdue) hfresh (fun hnil => ?_)
      (fun r rs payload hcons hload => ?_) (fun r rs err hcons hload htype => ?_)
      fun r rs err errorType hcons hload htype => ?_
    · rw [hrows] at hnil
      cases hnil
    · rw [hrows] at hcons
      cases hcons
      exact ⟨_, rfl, settles_claim hload⟩
    · rw [hrows] at hcons
      cases hcons
      have := hexpected row (hskipped err hload ▸ List.mem_cons_self) err hload
      rw [htype] at this
      cases this
    · rw [hrows] at hcons
      cases hcons
      have hattempts : (s.db.quarantine row moment errorType moment).attempts = s.db.attempts := by
        rw [QueueDb.quarantine_eq hkeyed (hrows ▸ List.mem_cons_self)]
      refine Proc.wp_mono (ih (s := ⟨s.db.quarantine row moment errorType moment, s.issued⟩)
        (QueueDb.keyed_quarantine hkeyed _ _ _ _) (QueueDb.eligible_quarantine hkeyed hrows _ _)
        (fun r hr => hdue r (List.mem_cons_of_mem _ hr)) (hattempts ▸ hfresh) ?_ ?_)
        ?_ fun _ _ _ hfalse => hfalse
      · intro r hr
        exact hexpected r (hskipped err hload ▸ List.mem_cons_of_mem _ hr)
      · simp only [List.length_cons] at hn ⊢
        omega
      · rintro a _ s' ⟨item, ha, hsettles⟩
        exact ⟨item, ha, hsettles.skip hkeyed hrows (SqliteQueue.not_decodes_of_error hload)⟩

/-- **The loop if an error is not expected.** It raises, or is cut off before.

**Proof sketch.** Induction on the rounds: the first item is skipped as expected, or raises. -/
theorem wp_loop_blocked (hkeyed : Table.Keyed QueueRow.id s.db.items)
    (hrows : s.db.eligible moment = rows)
    (hdue : ∀ row ∈ rows, ∀ due ∈ row.availableAt, due.IsCanonical)
    (hfresh : ∀ a ∈ s.db.attempts, a.claimToken ≠ (tokens s.issued.length).text)
    (hblocked : ¬ q.Expected rows) :
    (q.nextItemLoop workerId n).wp (answeredBy (QueueOp.alone moment tokens))
      (fun a _ _ => a = none) (fun _ _ _ => True) () s := by
  induction n generalizing s rows with
  | zero => rfl
  | succ n ih =>
    subst hrows
    refine wp_round hkeyed hdue hfresh (fun hnil => ?_) (fun r rs payload hcons hload => ?_)
      (fun _ _ _ _ _ _ => trivial) fun r rs err errorType hcons hload htype => ?_
    · refine absurd ?_ hblocked
      rw [hnil]
      intro row hrow
      cases hrow
    · refine absurd ?_ hblocked
      rw [hcons]
      intro row hrow
      simp [SqliteQueue.skipped, SqliteQueue.decodes_of_ok hload] at hrow
    · have hattempts : (s.db.quarantine r moment errorType moment).attempts = s.db.attempts := by
        rw [QueueDb.quarantine_eq hkeyed (hcons ▸ List.mem_cons_self)]
      refine ih (s := ⟨s.db.quarantine r moment errorType moment, s.issued⟩)
        (QueueDb.keyed_quarantine hkeyed _ _ _ _) (QueueDb.eligible_quarantine hkeyed hcons _ _)
        (fun row hrow => hdue row (hcons ▸ List.mem_cons_of_mem _ hrow)) (hattempts ▸ hfresh) ?_
      intro hexpected
      refine hblocked ?_
      rw [hcons]
      intro row hrow err' herr'
      simp only [SqliteQueue.skipped, SqliteQueue.not_decodes_of_error hload, Bool.not_false,
        List.takeWhile_cons_of_pos, List.mem_cons] at hrow
      rcases hrow with rfl | hrow
      · obtain rfl := Except.error.inj (hload.symm.trans herr')
        rw [htype]
        rfl
      · exact hexpected row hrow err' herr'

end Loop

/-! ## The call -/

/-- Tables that can be selected from: ids are unique, and what waits has a canonical deadline or
none. -/
structure QueueDb.Selectable (db : QueueDb) : Prop where
  keyed : Table.Keyed QueueRow.id db.items
  due : ∀ row ∈ db.items, row.status = .pending → ∀ due ∈ row.availableAt, due.IsCanonical

/-- The eligible items of such tables have canonical deadlines. -/
lemma QueueDb.Selectable.eligible {db : QueueDb} (h : db.Selectable) {now : Datetime} :
    ∀ row ∈ db.eligible now, ∀ due ∈ row.availableAt, due.IsCanonical := by
  intro row hrow
  obtain ⟨hmem, heligible⟩ := mem_eligible.mp hrow
  simp only [isEligible, Bool.and_eq_true, decide_eq_true_eq] at heligible
  exact h.due row hmem heligible.1

/-- The lease reclaim keeps the tables selectable and the tokens of the attempts. -/
lemma QueueDb.Selectable.reclaimStale {q : SqliteQueue} (hq : q.DelaysRetries) {now : Datetime}
    {db db' : QueueDb} (h : db.Selectable) (hreclaim : db.reclaimStale q now = .ok db') :
    db'.Selectable ∧
      db'.attempts.map QueueAttemptRow.claimToken = db.attempts.map QueueAttemptRow.claimToken := by
  refine foldlM_ok_induction (P := fun d => d.Selectable ∧
    d.attempts.map QueueAttemptRow.claimToken = db.attempts.map QueueAttemptRow.claimToken) ?_
    hreclaim ⟨h, rfl⟩
  rintro d stale d' - ⟨hd, htokens⟩ hone
  unfold reclaimOne at hone
  dsimp only at hone
  generalize (if stale.retryCount + 1 ≤ (q.maxRetries : ℤ) then QueueStatus.pending
    else .failed) = newStatus at hone
  obtain ⟨text, htext, hone⟩ := Except.bind_eq_ok.mp hone
  have hcanonical : ∀ due ∈ text, due.IsCanonical := by
    rcases QueueDb.deadline_schedules htext with rfl | ⟨count, hcount⟩
    · simp
    · exact hq.canonical hcount
  generalize hf : (fun row : QueueRow => { row with
    status := newStatus
    retryCount := stale.retryCount + 1
    claimedBy := if newStatus = QueueStatus.pending then "" else stale.claimedBy
    claimedAt := none
    claimToken := ""
    availableAt := text }) = f at hone
  generalize (fun row : QueueRow => decide (row.id = stale.id) &&
    decide (row.status = QueueStatus.inProgress) &&
      decide (row.claimToken = stale.claimToken)) = guard at hone
  have hselectable : ({ d with items := Table.update guard f d.items } : QueueDb).Selectable := by
    refine ⟨hd.keyed.update fun r _ _ => by rw [← hf], fun row hrow hpending => ?_⟩
    obtain ⟨before, hbefore, rfl⟩ := Table.mem_update.mp hrow
    split at hpending
    · next hguard =>
      rw [if_pos hguard, ← hf]
      exact hcanonical
    · next hguard =>
      rw [if_neg hguard]
      exact hd.due before hbefore hpending
  split at hone
  · cases hone
    refine ⟨⟨hselectable.keyed, hselectable.due⟩, ?_⟩
    rw [← htokens]
    exact Table.map_update fun _ _ _ => rfl
  · cases hone
    exact ⟨hselectable, htokens⟩

/-- `next_item` runs its loop on the tables that the lease reclaim has left. -/
lemma wp_nextItem {q : SqliteQueue} {workerId : String} {moment : Datetime}
    {tokens : ℕ → ClaimToken} {s : QueueSystem} {db : QueueDb} {n : ℕ}
    {Q : Option (Option QueueItem) → Unit → QueueSystem → Prop}
    {R : PyError → Unit → QueueSystem → Prop} (hreclaim : s.db.reclaimStale q moment = .ok db) :
    (q.nextItem workerId n).wp (answeredBy (QueueOp.alone moment tokens)) Q R () s ↔
      (q.nextItemLoop workerId n).wp (answeredBy (QueueOp.alone moment tokens)) Q R ()
        ⟨db, s.issued⟩ := by
  simp only [SqliteQueue.nextItem, SqliteQueue.now, Proc.wp_bind, Proc.wp_call_answeredBy,
    Proc.wp_ofExcept, QueueOp.alone_clock, QueueOp.alone_reclaimStale hreclaim]

/-- **A malformed payload does not block the queue**: from the tables `db` that the lease reclaim
has left, `next_item` with enough rounds returns without an error, and settles the eligible
items. -/
def SqliteQueue.NeverBlocked (q : SqliteQueue) (workerId : String) (moment : Datetime)
    (tokens : ℕ → ClaimToken) (s : QueueSystem) (db : QueueDb) : Prop :=
  ∃ n, ∀ rounds, n ≤ rounds → ∃ item,
    ((q.nextItemCall workerId rounds).solve (QueueOp.alone moment tokens) s).1 =
      .ok (.item item) ∧
    Settles q workerId moment (tokens s.issued.length) (db.eligible moment) db
      ((q.nextItemCall workerId rounds).solve (QueueOp.alone moment tokens) s).2.1.db item

section Call

variable {q : SqliteQueue} {workerId : String} {moment : Datetime} {tokens : ℕ → ClaimToken}
  {s : QueueSystem} {db : QueueDb}

/-- The tables after the lease reclaim can be selected from, and a fresh token is still fresh. -/
lemma QueueDb.Selectable.reclaimed (hs : s.db.Selectable) (hq : q.DelaysRetries)
    {token : ClaimToken} (hfresh : ∀ a ∈ s.db.attempts, a.claimToken ≠ token.text)
    (hreclaim : s.db.reclaimStale q moment = .ok db) :
    db.Selectable ∧ ∀ a ∈ db.attempts, a.claimToken ≠ token.text := by
  obtain ⟨hdb, htokens⟩ := hs.reclaimStale hq hreclaim
  refine ⟨hdb, fun a ha heq => ?_⟩
  obtain ⟨b, hb, hbeq⟩ := List.mem_map.mp (htokens ▸ List.mem_map_of_mem ha)
  exact hfresh b hb (hbeq.trans heq)

/-- With expected errors, no payload blocks the queue. -/
lemma neverBlocked_of_expected (hq : q.DelaysRetries) (hs : s.db.Selectable)
    (hfresh : ∀ a ∈ s.db.attempts, a.claimToken ≠ (tokens s.issued.length).text)
    (hreclaim : s.db.reclaimStale q moment = .ok db) (h : q.Expected (db.eligible moment)) :
    q.NeverBlocked workerId moment tokens s db := by
  obtain ⟨hdb, hfresh'⟩ := hs.reclaimed hq hfresh hreclaim
  refine ⟨(db.eligible moment).length + 1, fun rounds hrounds => ?_⟩
  refine (Prog.wp_answeredBy (Q := fun a s' => ∃ item, a = .ok (.item item) ∧
    Settles q workerId moment (tokens s.issued.length) (db.eligible moment) db s'.db item)).mp
    (QueueM.program_wp.mpr ((wp_nextItem hreclaim).mpr ?_))
  refine Proc.wp_mono (wp_loop_settles (s := ⟨db, s.issued⟩) hdb.keyed rfl hdb.eligible hfresh' h
    hrounds) ?_ fun _ _ _ hfalse => hfalse.elim
  rintro _ _ s' ⟨item, rfl, hsettles⟩
  exact ⟨item, rfl, hsettles⟩

/-- With an error that is not expected, a payload blocks the queue. -/
lemma not_neverBlocked (hq : q.DelaysRetries) (hs : s.db.Selectable)
    (hfresh : ∀ a ∈ s.db.attempts, a.claimToken ≠ (tokens s.issued.length).text)
    (hreclaim : s.db.reclaimStale q moment = .ok db) (h : ¬ q.Expected (db.eligible moment)) :
    ¬ q.NeverBlocked workerId moment tokens s db := by
  obtain ⟨hdb, hfresh'⟩ := hs.reclaimed hq hfresh hreclaim
  rintro ⟨n, hn⟩
  obtain ⟨item, hanswer, -⟩ := hn n (Nat.le_refl n)
  have hblocked : ∀ item, ((q.nextItemCall workerId n).solve (QueueOp.alone moment tokens) s).1 ≠
      .ok (.item item) := by
    refine (Prog.wp_answeredBy (Q := fun a _ => ∀ item, a ≠ .ok (.item item))).mp
      (QueueM.program_wp.mpr ((wp_nextItem hreclaim).mpr ?_))
    refine Proc.wp_mono (wp_loop_blocked (s := ⟨db, s.issued⟩) hdb.keyed rfl hdb.eligible hfresh' h)
      ?_ fun _ _ _ _ => by simp
    rintro _ _ _ rfl
    simp
  exact hblocked item hanswer

end Call

/-! ## Two queues -/

/-- A decoder with the digit limit of the interpreter, for an empty object, a long integer, and
texts that are not JSON. -/
def limitedQueue : SqliteQueue :=
  { plainQueue with
    jsonLoads := fun text =>
      if text = "{}" then .ok (.dict [])
      else if 4300 < text.length then
        .error (.valueError "Exceeds the limit (4300 digits) for integer string conversion")
      else .error (.jsonDecode "Expecting value: line 1 column 1 (char 0)") }

/-- A pending row with a given id and payload. -/
def pendingRow (id payload : String) : QueueRow where
  id := id
  reference := "T"
  payload := payload
  status := .pending
  retryCount := 0
  createdAt := ⟨0, some 0⟩
  claimedBy := ""
  claimedAt := none
  claimToken := ""
  transactionId := ""
  availableAt := none

/-- Pending rows, in tables that are empty otherwise. -/
def pendingSystem (rows : List QueueRow) : QueueSystem := ⟨⟨rows, [], [], []⟩, []⟩
