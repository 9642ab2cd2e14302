import RpaCore.Queue.Changes

set_option relaxedAutoImplicit false
set_option autoImplicit false

/-!
# Attempt accounting

The item rows and the attempt rows are written by separate statements. Whatever workers do, they
tell the same story: an item in progress has one open attempt, under its token, and no other item
has one.

## Main definitions

* `QueueDb.openTokens` — the tokens of the open attempts of an item.
* `QueueDb.Accounted` — the invariant.

## Main results

* `QueueDb.Accounted.releases`, `QueueDb.Accounted.claims`, … — each kind of write keeps it.
* `attempts_accounted` — it holds in every reachable state, and closed attempts are final.
-/

namespace QueueDb

/-! ## Open attempts -/

/-- The token of an attempt, if it is an open one of the item. -/
def openToken (id : String) (a : QueueAttemptRow) : Option String :=
  if a.itemId = id ∧ a.outcome = none then some a.claimToken else none

/-- The tokens of the open attempts of an item. -/
def openTokens (db : QueueDb) (id : String) : List String := db.attempts.filterMap (openToken id)

/-- Open attempts only depend on the attempts. -/
lemma openTokens_congr {db db' : QueueDb} (h : db'.attempts = db.attempts) (id : String) :
    db'.openTokens id = db.openTokens id := by
  rw [openTokens, h]
  rfl

/-- Closing the attempt under a token takes that token from the open ones of its item. -/
lemma openTokens_closeAttempt (db : QueueDb) (i token : String) (outcome : QueueAttemptOutcome)
    (now : Datetime) (id : String) : (db.closeAttempt i token outcome now).openTokens id =
      if id = i then (db.openTokens id).filter (· ≠ token) else db.openTokens id := by
  simp only [openTokens, closeAttempt, Table.update, List.filterMap_map]
  split
  · next hid =>
    rw [List.filter_filterMap]
    congr 1
    funext a
    simp only [Function.comp_apply, openToken, hid]
    by_cases hi : a.itemId = i <;> by_cases ht : a.claimToken = token <;>
      by_cases ho : a.outcome = none <;> simp [hi, ht, ho, Option.filter]
  · next hid =>
    congr 1
    funext a
    simp only [Function.comp_apply, openToken]
    by_cases hi : a.itemId = id
    · have : ¬ a.itemId = i := fun h => hid (hi.symm.trans h)
      simp [this]
    · split <;> simp [hi]

/-! ## The invariant -/

/-- What the row of an item says about its claim, given the tokens of its open attempts. -/
structure RowAccounted (openTokens : List String) (row : QueueRow) : Prop where
  token : row.status = .inProgress ↔ row.claimToken ≠ ""
  claimed : row.status = .inProgress ↔ row.claimedAt.isSome = true
  attempts : openTokens = if row.status = .inProgress then [row.claimToken] else []
  available : row.availableAt.isSome = true → row.status = .pending

/-- **Attempt accounting**: every row agrees with its open attempts, a closed attempt has a finish
time, and the constraints of the tables hold. -/
structure Accounted (db : QueueDb) : Prop where
  keyed : Table.Keyed QueueRow.id db.items
  rows : ∀ row ∈ db.items, RowAccounted (db.openTokens row.id) row
  finished : ∀ a ∈ db.attempts, a.finishedAt.isSome = a.outcome.isSome
  known : ∀ a ∈ db.attempts, a.itemId ∈ db.items.map QueueRow.id
  attemptKeyed : Table.Keyed (fun a : QueueAttemptRow => (a.itemId, a.claimToken)) db.attempts

/-- The empty queue. -/
lemma accounted_empty : Accounted empty :=
  ⟨List.nodup_nil, by simp [empty], by simp [empty], by simp [empty], List.nodup_nil⟩

/-- An item with no attempts has no open ones. -/
lemma Accounted.openTokens_eq_nil {db : QueueDb} (h : db.Accounted) {id : String}
    (hid : id ∉ db.items.map QueueRow.id) : db.openTokens id = [] := by
  rw [openTokens, List.filterMap_eq_nil_iff]
  intro a ha
  rw [openToken, if_neg]
  rintro ⟨rfl, -⟩
  exact hid (h.known a ha)

/-! ## Writes that keep it -/

/-- The attempts after an item was released. -/
lemma Releases.openTokens {db db' : QueueDb} {p : QueueRow → Bool} {f : QueueRow → QueueRow}
    {row : QueueRow} {outcome : QueueAttemptOutcome} {now : Datetime}
    (hr : db.Releases db' p f row outcome now) (id : String) :
    db'.openTokens id =
      if id = row.id ∧ row.claimToken ≠ "" then (db.openTokens id).filter (· ≠ row.claimToken)
      else db.openTokens id := by
  have hatt := hr.attempts
  split at hatt
  · next ht => rw [openTokens_congr hatt, if_neg (fun h => h.2 ht)]
  · next ht => rw [openTokens_congr hatt, openTokens_closeAttempt]; simp [ht]

/-- Releasing an item. -/
lemma Accounted.releases {db db' : QueueDb} (h : db.Accounted) {p : QueueRow → Bool}
    {f : QueueRow → QueueRow} {row : QueueRow} {outcome : QueueAttemptOutcome} {now : Datetime}
    (hr : db.Releases db' p f row outcome now) : db'.Accounted := by
  have hids : db'.items.map QueueRow.id = db.items.map QueueRow.id := by
    rw [hr.items, Table.map_update fun r _ hp => (hr.released r hp).id]
  have hmap : db'.attempts.map (fun a => (a.itemId, a.claimToken)) =
      db.attempts.map fun a => (a.itemId, a.claimToken) := by
    rw [hr.attempts]
    split
    · rfl
    · exact Table.map_update fun _ _ _ => rfl
  refine ⟨?_, ?_, ?_, ?_, ?_⟩
  · rw [hr.items]
    exact h.keyed.update fun r _ hp => (hr.released r hp).id
  · intro r' hr'
    rw [hr.items] at hr'
    obtain ⟨r, hmem, rfl⟩ := Table.mem_update.mp hr'
    by_cases hp : p r = true
    · -- the released row
      obtain rfl : r = row := h.keyed.eq hmem hr.mem (hr.only r hp)
      have hrel := hr.released r hp
      have hrow := h.rows r hmem
      rw [if_pos hp, hrel.id]
      refine ⟨by simp [hrel.status, hrel.token], by simp [hrel.status, hrel.claimedAt], ?_,
        hrel.available⟩
      rw [hr.openTokens, if_neg hrel.status, hrow.attempts]
      by_cases hprog : r.status = .inProgress
      · have hne := hrow.token.mp hprog
        simp [hprog, hne]
      · have heq : r.claimToken = "" := by
          by_contra hne
          exact hprog (hrow.token.mpr hne)
        simp [hprog, heq]
    · -- another row
      have hne : r.id ≠ row.id := fun heq => hp (h.keyed.eq hmem hr.mem heq ▸ hr.found)
      rw [if_neg hp, hr.openTokens, if_neg (fun hc => hne hc.1)]
      exact h.rows r hmem
  · intro a ha
    rw [hr.attempts] at ha
    split at ha
    · exact h.finished a ha
    · obtain ⟨a₀, ha₀, rfl⟩ := Table.mem_update.mp ha
      split
      · rfl
      · exact h.finished a₀ ha₀
  · intro a ha
    rw [hids]
    have : (a.itemId, a.claimToken) ∈ db.attempts.map fun a => (a.itemId, a.claimToken) :=
      hmap ▸ List.mem_map.mpr ⟨a, ha, rfl⟩
    obtain ⟨a₀, ha₀, heq⟩ := List.mem_map.mp this
    exact (Prod.mk.inj heq).1 ▸ h.known a₀ ha₀
  · unfold Table.Keyed
    rw [hmap]
    exact h.attemptKeyed

/-- Claiming an item. -/
lemma Accounted.claims {db db' : QueueDb} (h : db.Accounted) {selected : QueueRow}
    {workerId : String} {now : Datetime} {token : ClaimToken} {row : QueueRow}
    (hc : db.Claims db' selected workerId now token row) : db'.Accounted := by
  obtain ⟨hid, hpending, -, -⟩ := stillSelected_iff.mp hc.found
  have hids : db'.items.map QueueRow.id = db.items.map QueueRow.id := by
    rw [hc.items]
    exact Table.map_update fun _ _ _ => rfl
  have hopen : ∀ id, db'.openTokens id =
      db.openTokens id ++ if id = selected.id then [token.text] else [] := by
    intro id
    rw [openTokens, hc.attempts, List.filterMap_append]
    by_cases hi : id = selected.id
    · simp [openTokens, openToken, hi]
    · have : ¬ selected.id = id := fun h => hi h.symm
      simp [openTokens, openToken, hi, this]
  refine ⟨?_, ?_, ?_, ?_, ?_⟩
  · rw [hc.items]
    exact h.keyed.update fun _ _ _ => rfl
  · intro r' hr'
    rw [hc.items] at hr'
    obtain ⟨r, hmem, rfl⟩ := Table.mem_update.mp hr'
    by_cases hp : stillSelected selected now r = true
    · obtain ⟨hid', hpending', -, -⟩ := stillSelected_iff.mp hp
      have hrow := h.rows r hmem
      have hnil : db.openTokens r.id = [] := by rw [hrow.attempts]; simp [hpending']
      rw [if_pos hp]
      refine ⟨by simp [token.nonempty], by simp, ?_, by simp⟩
      rw [hopen, hnil]
      simp [hid']
    · have hne : r.id ≠ selected.id := fun heq =>
        hp (h.keyed.eq hmem hc.mem (heq.trans hid.symm) ▸ hc.found)
      rw [if_neg hp, hopen, if_neg hne, List.append_nil]
      exact h.rows r hmem
  · intro a ha
    rw [hc.attempts] at ha
    rcases List.mem_append.mp ha with ha | ha
    · exact h.finished a ha
    · rw [List.mem_singleton.mp ha]
      rfl
  · intro a ha
    rw [hids]
    rw [hc.attempts] at ha
    rcases List.mem_append.mp ha with ha | ha
    · exact h.known a ha
    · rw [List.mem_singleton.mp ha]
      exact List.mem_map.mpr ⟨row, hc.mem, hid⟩
  · rw [hc.attempts]
    exact h.attemptKeyed.append hc.fresh

/-- A write to the items that leaves every claim as it is. -/
lemma Accounted.touches {db db' : QueueDb} (h : db.Accounted) {p : QueueRow → Bool}
    {f : QueueRow → QueueRow} (hitems : db'.items = Table.update p f db.items)
    (hatt : db'.attempts = db.attempts)
    (hf : ∀ r ∈ db.items, p r = true → (f r).id = r.id ∧ (f r).status = r.status ∧
      (f r).claimToken = r.claimToken ∧ (f r).claimedAt.isSome = r.claimedAt.isSome ∧
      (f r).availableAt = r.availableAt) : db'.Accounted := by
  have hids : db'.items.map QueueRow.id = db.items.map QueueRow.id := by
    rw [hitems, Table.map_update fun r hr hp => (hf r hr hp).1]
  refine ⟨?_, ?_, by rw [hatt]; exact h.finished, by rw [hatt, hids]; exact h.known,
    by rw [hatt]; exact h.attemptKeyed⟩
  · rw [hitems]
    exact h.keyed.update fun r hr hp => (hf r hr hp).1
  · intro r' hr'
    rw [hitems] at hr'
    obtain ⟨r, hmem, rfl⟩ := Table.mem_update.mp hr'
    have hrow := h.rows r hmem
    split
    · next hp =>
      obtain ⟨hid, hstatus, htoken, hclaimed, havail⟩ := hf r hmem hp
      rw [openTokens_congr hatt, hid]
      exact ⟨by rw [hstatus, htoken]; exact hrow.token,
        by rw [hstatus, hclaimed]; exact hrow.claimed,
        by rw [hstatus, htoken]; exact hrow.attempts, by rw [hstatus, havail]; exact hrow.available⟩
    · rw [openTokens_congr hatt]
      exact hrow

/-- A write to the items that takes a pending item out of the queue. -/
lemma Accounted.drops {db db' : QueueDb} (h : db.Accounted) {selected : QueueRow} {now : Datetime}
    {f : QueueRow → QueueRow}
    (hf : ∀ r, stillSelected selected now r = true → Released r (f r))
    (hitems : db'.items = Table.update (stillSelected selected now) f db.items)
    (hatt : db'.attempts = db.attempts) : db'.Accounted := by
  have hids : db'.items.map QueueRow.id = db.items.map QueueRow.id := by
    rw [hitems, Table.map_update fun r _ hp => (hf r hp).id]
  refine ⟨?_, ?_, by rw [hatt]; exact h.finished, by rw [hatt, hids]; exact h.known,
    by rw [hatt]; exact h.attemptKeyed⟩
  · rw [hitems]
    exact h.keyed.update fun r _ hp => (hf r hp).id
  · intro r' hr'
    rw [hitems] at hr'
    obtain ⟨r, hmem, rfl⟩ := Table.mem_update.mp hr'
    have hrow := h.rows r hmem
    rw [openTokens_congr hatt]
    split
    · next hp =>
      have hrel := hf r hp
      have hpending := (stillSelected_iff.mp hp).2.1
      rw [hrel.id]
      refine ⟨by simp [hrel.status, hrel.token], by simp [hrel.status, hrel.claimedAt], ?_,
        hrel.available⟩
      rw [hrow.attempts, if_neg hrel.status]
      simp [hpending]
    · exact hrow

/-- Adding an unclaimed row. -/
lemma Accounted.adds {db db' : QueueDb} (h : db.Accounted) {row : QueueRow}
    (hnew : row.id ∉ db.items.map QueueRow.id) (hrow : Unclaimed row)
    (hitems : db'.items = db.items ++ [row]) (hatt : db'.attempts = db.attempts) :
    db'.Accounted := by
  refine ⟨hitems ▸ h.keyed.append hnew, ?_, by rw [hatt]; exact h.finished, ?_,
    by rw [hatt]; exact h.attemptKeyed⟩
  · intro r hr
    rw [openTokens_congr hatt]
    rw [hitems] at hr
    rcases List.mem_append.mp hr with hr | hr
    · exact h.rows r hr
    · rw [List.mem_singleton.mp hr]
      refine ⟨by simp [hrow.status, hrow.token], by simp [hrow.status, hrow.claimedAt], ?_,
        fun _ => hrow.status⟩
      rw [h.openTokens_eq_nil hnew, if_neg (by simp [hrow.status])]
  · intro a ha
    rw [hatt] at ha
    rw [hitems, List.map_append]
    exact List.mem_append_left _ (h.known a ha)

/-! ## Closed attempts -/

/-- No closed attempt is lost or changed. -/
def KeepsClosed (db db' : QueueDb) : Prop :=
  ∀ a ∈ db.attempts, a.outcome.isSome = true → a ∈ db'.attempts

lemma KeepsClosed.refl (db : QueueDb) : db.KeepsClosed db := fun _ ha _ => ha

lemma KeepsClosed.trans {a b c : QueueDb} (h : a.KeepsClosed b) (h' : b.KeepsClosed c) :
    a.KeepsClosed c :=
  fun x hx ho => h' x (h x hx ho) ho

lemma KeepsClosed.of_eq {db db' : QueueDb} (h : db'.attempts = db.attempts) :
    db.KeepsClosed db' :=
  fun _ ha _ => h ▸ ha

lemma keepsClosed_releases {db db' : QueueDb} {p : QueueRow → Bool} {f : QueueRow → QueueRow}
    {row : QueueRow} {outcome : QueueAttemptOutcome} {now : Datetime}
    (hr : db.Releases db' p f row outcome now) : db.KeepsClosed db' := by
  intro a ha ho
  rw [hr.attempts]
  split
  · exact ha
  · refine Table.mem_update_of_not ha ?_
    cases hout : a.outcome with
    | none =>
      rw [hout] at ho
      cases ho
    | some o => simp

/-! ## Every statement -/

/-- Every change keeps the accounts and the closed attempts. -/
lemma Accounted.change {op : QueueOp} {v : op.Val} {db db' : QueueDb} (h : db.Accounted)
    (hchange : Change op v db db') : db'.Accounted ∧ db.KeepsClosed db' := by
  cases hchange with
  | same hitems hatt =>
    refine ⟨h.touches (p := fun _ => false) (f := fun r => r) ?_ hatt (by simp), .of_eq hatt⟩
    rw [hitems, Table.update_eq_self (by simp)]
  | add _ hnew hrow _ hitems hatt => exact ⟨h.adds hnew hrow hitems hatt, .of_eq hatt⟩
  | drop hf hitems hatt => exact ⟨h.drops hf hitems hatt, .of_eq hatt⟩
  | claim _ hclaims =>
    refine ⟨h.claims hclaims, fun a ha _ => ?_⟩
    rw [hclaims.attempts]
    exact List.mem_append_left _ ha
  | bind _ _ _ hitems hatt =>
    exact ⟨h.touches hitems hatt fun _ _ _ => ⟨rfl, rfl, rfl, rfl, rfl⟩, .of_eq hatt⟩
  | renew _ _ _ hitems hatt =>
    refine ⟨h.touches hitems hatt fun r hr hp => ⟨rfl, rfl, rfl, ?_, rfl⟩, .of_eq hatt⟩
    exact ((h.rows r hr).claimed.mp (isHeld_iff.mp hp).2.1).symm
  | release hr => exact ⟨h.releases hr, keepsClosed_releases hr⟩

/-- A statement that commits keeps the accounts and the closed attempts. -/
theorem Accounted.run {db db' : QueueDb} (h : db.Accounted) {op : QueueOp} (hlegit : op.Legit)
    {v : op.Val} (hrun : op.run db = .ok (v, db')) : db'.Accounted ∧ db.KeepsClosed db' :=
  QueueOp.run_induction hlegit (P := fun d => d.Accounted ∧ db.KeepsClosed d)
    (fun _ hd => hd.1.keyed)
    (fun _ _ hd hchange => ⟨(hd.1.change hchange).1, hd.2.trans (hd.1.change hchange).2⟩) hrun
    ⟨h, .refl _⟩

/-- An answer keeps the accounts and the closed attempts. -/
lemma Accounted.exec {s s' : QueueSystem} (h : s.db.Accounted) {op : QueueOp} (hlegit : op.Legit)
    {r : op.Res} (hexec : op.Exec s r s') : s'.db.Accounted ∧ s.db.KeepsClosed s'.db := by
  rcases hexec.db with heq | ⟨v, hrun⟩
  · rw [heq]
    exact ⟨h, .refl _⟩
  · exact h.run hlegit hrun

end QueueDb

/-! ## Every run -/

/-- The accounts are right in every state of a run. -/
lemma QueueRun.accounted {t : List QueueLabel} {P : QueuePool} (h : QueueRun t P) :
    P.shared.db.Accounted :=
  QueueRun.later (t := []) (P := ⟨QueueSystem.init, fun _ => .pure (.ok .done)⟩) (.nil _) h
    (I := fun s => s.db.Accounted) (fun _ _ _ _ hlegit hexec hI => (hI.exec hlegit hexec).1)
    QueueDb.accounted_empty

/-- The rest of a run keeps the closed attempts. -/
lemma QueueRun.keepsClosed {t t' : List QueueLabel} {P P' : QueuePool} (h : QueueRun t P)
    (h' : queueMachine.Run QueueCall P t' P') :
    P'.shared.db.Accounted ∧ P.shared.db.KeepsClosed P'.shared.db :=
  h.later h' (I := fun s => s.db.Accounted ∧ P.shared.db.KeepsClosed s.db)
    (fun _ _ _ _ hlegit hexec hI => ⟨(hI.1.exec hlegit hexec).1,
      hI.2.trans (hI.1.exec hlegit hexec).2⟩) ⟨h.accounted, .refl _⟩

/-- **Attempt accounting is exact.** In every state that workers reach from an empty queue, in any
interleaving and whatever they call:

* an item is in progress iff it has a token iff it has a claim time; then exactly one attempt of
  it is open, under that token, and otherwise none is; and only a pending item has a deadline;
* a closed attempt has a finish time, and in every state reached from there its row is still
  there as it is, the only one of the item under its token.

**Proof sketch.** A run only sends legitimate statements (`QueueCall.wp`), and every one of them
keeps the invariant and the closed attempts (`QueueDb.Accounted.run`). -/
theorem attempts_accounted {t : List QueueLabel} {P : QueuePool} (h : QueueRun t P) :
    (∀ row ∈ P.shared.db.items,
      (row.status = .inProgress ↔ row.claimToken ≠ "") ∧
      (row.status = .inProgress ↔ row.claimedAt.isSome = true) ∧
      (row.status = .inProgress → P.shared.db.openTokens row.id = [row.claimToken]) ∧
      (row.status ≠ .inProgress → P.shared.db.openTokens row.id = []) ∧
      (row.availableAt.isSome = true → row.status = .pending)) ∧
    (∀ a ∈ P.shared.db.attempts, a.outcome.isSome = true → a.finishedAt.isSome = true ∧
      ∀ t' P', queueMachine.Run QueueCall P t' P' → a ∈ P'.shared.db.attempts ∧
        ∀ b ∈ P'.shared.db.attempts,
          b.itemId = a.itemId → b.claimToken = a.claimToken → b = a) := by
  have hacc := h.accounted
  refine ⟨fun row hrow => ?_, fun a ha hclosed => ⟨?_, fun t' P' hrun => ?_⟩⟩
  · have hr := hacc.rows row hrow
    refine ⟨hr.token, hr.claimed, fun hp => ?_, fun hp => ?_, hr.available⟩
    · rw [hr.attempts, if_pos hp]
    · rw [hr.attempts, if_neg hp]
  · rw [hacc.finished a ha]
    exact hclosed
  · obtain ⟨hacc', hkeep⟩ := h.keepsClosed hrun
    refine ⟨hkeep a ha hclosed, fun b hb hi ht => ?_⟩
    exact hacc'.attemptKeyed.eq hb (hkeep a ha hclosed) (by rw [hi, ht])

/-- One item added and claimed: it is in progress with one open attempt, under its token. -/
theorem attempts_accounted_claimed : ∃ row ∈ claimedPool.shared.db.items,
    row.status = .inProgress ∧ claimedPool.shared.db.openTokens row.id = [row.claimToken] := by
  obtain ⟨t, ht⟩ := claimedPool_run.1
  refine ⟨_, List.mem_cons_self, rfl, ?_⟩
  exact ((attempts_accounted ht).1 _ List.mem_cons_self).2.2.1 rfl
