import RpaCore.Workers.Fencing
import RpaCore.Workers.Fleet

set_option relaxedAutoImplicit false
set_option autoImplicit false

/-!
# Who executes a step

In an orderly fleet the worker whose claim is current is the only one that saves the transaction of
its item, so what it knows of it is what is stored. It executes no step that is successful there. A
worker that has lost its claim may still be executing a step; nothing that it does is saved.

## Main definitions

* `turnAt` — the turn of a process.
* `Exclusive` — the invariant: claims are of one process each, and the holder is up to date.

## Main results

* `FleetRun.exclusive` — the invariant holds in every run.
* `succeeded_not_executed` — no holder of a claim executes a step again that was successful.
-/

/-! ## The turn of a process -/

/-- The turn of a process. -/
def turnAt (p : ℕ) (t : List WorkerLabel) : Option Turn := (callOf p t).bind fun c => turnOf c.2

/-- The turn of a process that is in a call. -/
lemma turnAt_of_call {p : ℕ} {t : List WorkerLabel} {prog : WorkerProg}
    {evs : List (Event WorkerOp WorkerOp.Res)} (h : callOf p t = some (prog, evs)) :
    turnAt p t = turnOf evs := by
  rw [turnAt, h]
  rfl

/-- A process that is in a turn is in a call. -/
lemma exists_call_of_turnAt {p : ℕ} {t : List WorkerLabel} {turn : Turn}
    (h : turnAt p t = some turn) : ∃ prog evs, callOf p t = some (prog, evs) ∧
      turnOf evs = some turn := by
  obtain ⟨⟨prog, evs⟩, hcall, hturn⟩ := Option.bind_eq_some_iff.mp h
  exact ⟨prog, evs, hcall, hturn⟩

/-- A process that starts is in no turn. -/
lemma turnAt_start (p q : ℕ) (t : List WorkerLabel) (prog : WorkerProg) :
    turnAt q (t ++ [.start p prog]) = if p = q then none else turnAt q t := by
  rw [turnAt, callOf_append, PoolLabel.follow]
  split
  · rfl
  · rfl

/-- An answer moves the turn of its process. -/
lemma turnAt_answer {p : ℕ} {t : List WorkerLabel} {prog : WorkerProg}
    {evs : List (Event WorkerOp WorkerOp.Res)} (hcall : callOf p t = some (prog, evs)) (q : ℕ)
    (ev : Event WorkerOp WorkerOp.Res) : turnAt q (t ++ [.answer p ev]) =
      if p = q then Turn.follow (turnAt q t) ev else turnAt q t := by
  rw [turnAt, callOf_append, PoolLabel.follow]
  split
  · next hq =>
    subst hq
    rw [turnAt, hcall]
    exact turnOf_append evs ev
  · rfl

/-- A turn begins with a claim, and has the same claim from then on. -/
lemma Turn.Moves.claimed {g : Option Turn} {ev : Event WorkerOp WorkerOp.Res} {turn : Turn}
    (h : Turn.Moves g ev turn) : (∃ selected workerId now token row,
      ev = ⟨.queue (.claim selected workerId now token), .ok (some row)⟩ ∧ turn = .ofRow row) ∨
    ∃ turn₀, g = some turn₀ ∧ turn.itemId = turn₀.itemId ∧ turn.claimedBy = turn₀.claimedBy ∧
      turn.claimToken = turn₀.claimToken := by
  cases h with
  | claim => exact Or.inl ⟨_, _, _, _, _, rfl, rfl⟩
  | @load turn₀ id tx revision hg =>
    refine Or.inr ⟨turn₀, hg, ?_⟩
    unfold Turn.load
    split <;> exact ⟨rfl, rfl, rfl⟩
  | save hg => exact Or.inr ⟨_, hg, rfl, rfl, rfl⟩
  | callback hg => exact Or.inr ⟨_, hg, rfl, rfl, rfl⟩
  | quiet hg => exact Or.inr ⟨_, hg, rfl, rfl, rfl⟩

/-! ## The invariant -/

/-- The claim of a turn is current, or its attempt is closed. -/
def Turn.Claimed (s : WorkerSystem) (turn : Turn) : Prop :=
  s.queue.db.Holds turn.itemId turn.claimedBy turn.claimToken ∨
    ∃ outcome, s.queue.db.ClosedAs turn.itemId turn.claimToken outcome

/-- **One holder, who is up to date**: the claims of the processes were made, no two of them are
the same, and a process whose claim is current knows the snapshot that is stored. -/
structure Exclusive (t : List WorkerLabel) (s : WorkerSystem) : Prop where
  claimed : ∀ p turn, turnAt p t = some turn → turn.Claimed s
  apart : ∀ p q turn turn', turnAt p t = some turn → turnAt q t = some turn' → p ≠ q →
    turn.itemId = turn'.itemId → turn.claimToken ≠ turn'.claimToken
  latest : ∀ p turn snapshot revision, turnAt p t = some turn →
    turn.last = some (snapshot, revision) →
    s.queue.db.Holds turn.itemId turn.claimedBy turn.claimToken →
    overwritten snapshot.id t = false → s.transactions.revisionOf snapshot.id = revision

section Steps

variable {t : List WorkerLabel} {s s' : WorkerSystem} {p : ℕ} {prog : WorkerProg}
  {evs : List (Event WorkerOp WorkerOp.Res)} {op : WorkerOp} {r : op.Res} {turn : Turn}

/-- The attempt of a turn is in the table. -/
lemma Turn.Claimed.mem (h : turn.Claimed s) (hledger : Ledger t s) :
    (turn.itemId, turn.claimToken) ∈ s.queue.db.attemptKeys := by
  have hkey : ∀ a ∈ s.queue.db.attempts, a.itemId = turn.itemId ∧ a.claimToken = turn.claimToken →
      (turn.itemId, turn.claimToken) ∈ s.queue.db.attemptKeys := by
    rintro a ha ⟨hitem, htoken⟩
    rw [← hitem, ← htoken]
    exact List.mem_map_of_mem ha
  rcases h with hholds | ⟨outcome, a, ha, hitem, htoken, -⟩
  · obtain ⟨a, ha, hitem, htoken, -⟩ := hholds.open hledger.accounted
    exact hkey a ha ⟨hitem, htoken⟩
  · exact hkey a ha ⟨hitem, htoken⟩

/-- A claim that was made stays made. -/
lemma Turn.Claimed.step (h : turn.Claimed s) (hledger : Ledger t s)
    (hobserves : Observes true evs op) (hexec : op.Exec s r s') : turn.Claimed s' := by
  rcases h with hholds | ⟨outcome, hclosed⟩
  · exact hledger.claim_step hobserves hexec hholds
  · exact Or.inr ⟨outcome, hclosed.mono (hledger.keepsClosed hobserves hexec)⟩

/-- A claim that is current after a step was current before. -/
lemma Turn.Claimed.held (h : turn.Claimed s) (hledger : Ledger t s)
    (hledger' : Ledger (t ++ [.answer p ⟨op, r⟩]) s') (hobserves : Observes true evs op)
    (hexec : op.Exec s r s')
    (hholds : s'.queue.db.Holds turn.itemId turn.claimedBy turn.claimToken) :
    s.queue.db.Holds turn.itemId turn.claimedBy turn.claimToken := by
  rcases h with hbefore | ⟨outcome, hclosed⟩
  · exact hbefore
  · exact absurd hholds ((hclosed.mono (hledger.keepsClosed hobserves hexec)).not_holds
      hledger'.accounted)

end Steps

namespace Exclusive

variable {t : List WorkerLabel} {s s' : WorkerSystem} {p : ℕ} {prog : WorkerProg}
  {evs : List (Event WorkerOp WorkerOp.Res)} {op : WorkerOp} {r : op.Res}

/-- Two new databases. -/
lemma init : Exclusive [] WorkerSystem.init where
  claimed _ _ hturn := by cases hturn
  apart _ _ _ _ hturn := by cases hturn
  latest _ _ _ _ hturn := by cases hturn

/-- A process starts. -/
lemma start (h : Exclusive t s) (prog : WorkerProg) : Exclusive (t ++ [.start p prog]) s := by
  have hbefore : ∀ {q turn}, turnAt q (t ++ [.start p prog]) = some turn →
      turnAt q t = some turn := by
    intro q turn hturn
    rw [turnAt_start] at hturn
    split at hturn
    · cases hturn
    · exact hturn
  refine ⟨fun q turn hturn => h.claimed q turn (hbefore hturn),
    fun q q' turn turn' hturn hturn' => h.apart q q' turn turn' (hbefore hturn) (hbefore hturn'),
    fun q turn snapshot revision hturn hlast hholds hplain => ?_⟩
  rw [overwritten_append, Bool.or_eq_false_iff] at hplain
  exact h.latest q turn snapshot revision (hbefore hturn) hlast hholds hplain.1

/-- The claim of the process that takes a step was not made by another one. -/
lemma apart_step (h : Exclusive t s) (hledger : Ledger t s) (hexec : op.Exec s r s') {q : ℕ}
    {turn turn' : Turn} (hmoves : Turn.Moves (turnAt p t) ⟨op, r⟩ turn)
    (hturn' : turnAt q t = some turn') (hne : p ≠ q) (hitem : turn.itemId = turn'.itemId) :
    turn.claimToken ≠ turn'.claimToken := by
  rcases hmoves.claimed with
    ⟨selected, workerId, now, token, row, hev, rfl⟩ | ⟨turn₀, hturn₀, hitem₀, -, htoken₀⟩
  · -- the token of a new claim is not among those of its item
    cases hev
    intro htoken
    obtain ⟨-, -, hfresh⟩ := QueueOp.Exec.claimed hexec.1 hledger.accounted
    have hmem := (h.claimed q turn' hturn').mem hledger
    rw [← hitem, ← htoken] at hmem
    exact hfresh hmem
  · rw [htoken₀]
    exact h.apart p q turn₀ turn' hturn₀ hturn' hne (hitem₀.symm.trans hitem)

/-- Nobody but the holder of a claim saves the transaction of its item. -/
lemma saved_by_holder (h : Exclusive t s) (hledger : Ledger t s) (hbindings : Bindings t s)
    (hcall : callOf p t = some (prog, evs)) {tx : Transaction}
    {queueItemId claimedBy claimToken : String} {expectedRevision revision : ℤ} {initial : Bool}
    (hobserves : Observes true evs
      (.saveFenced tx queueItemId claimedBy claimToken expectedRevision initial))
    (hfenced : Fenced s s' tx queueItemId claimedBy claimToken expectedRevision initial revision)
    {q : ℕ} {turn : Turn} (hturn : turnAt q t = some turn)
    (hholds : s.queue.db.Holds turn.itemId turn.claimedBy turn.claimToken)
    (hbound : s.queue.db.Bound turn.itemId tx.id) : p = q := by
  obtain ⟨own, hown, rfl, rfl, rfl, hmay⟩ := hobserves.save _ _ _ _ _ _ rfl
  have hitem : own.itemId = turn.itemId := by
    cases initial with
    | true =>
      rcases hfenced.queue with ⟨hfalse, -⟩ | ⟨-, -, hheader, -⟩
      · cases hfalse
      · obtain ⟨row, hrow⟩ := hbindings.stored _ _ hbound
        rw [hheader] at hrow
        cases hrow
    | false =>
      have htied := hbindings.turns p prog evs own hcall hown
      exact hbindings.injective _ _ _ (htied.saved hmay).2 hbound
  obtain ⟨row, hrow, hmayWrite⟩ := hfenced.claim
  obtain ⟨hid, -, -, htoken, -⟩ := QueueDb.isHeld_iff.mp (Bool.and_eq_true_iff.mp hmayWrite).1
  obtain ⟨row', hrow', hheld'⟩ := hholds
  obtain ⟨hid', -, -, htoken', -⟩ := QueueDb.isHeld_iff.mp hheld'
  obtain rfl : row = row' :=
    hledger.accounted.keyed.eq hrow hrow' (hid.trans (hitem.trans hid'.symm))
  by_contra hne
  exact h.apart p q own turn ((turnAt_of_call hcall).trans hown) hturn hne hitem
    (htoken.symm.trans htoken')

/-- What the holder of a claim knows stays up to date in a step that is no save of its own. -/
lemma latest_kept (h : Exclusive t s) (hledger : Ledger t s) (hbindings : Bindings t s)
    (hcall : callOf p t = some (prog, evs)) (hobserves : Observes true evs op)
    (hexec : op.Exec s r s') {q : ℕ} {turn : Turn} {snapshot : Transaction} {revision : ℤ}
    (hother : p = q → ∀ tx queueItemId claimedBy claimToken expectedRevision initial,
      op ≠ .saveFenced tx queueItemId claimedBy claimToken expectedRevision initial)
    (hturn : turnAt q t = some turn) (hlast : turn.last = some (snapshot, revision))
    (hholds : s.queue.db.Holds turn.itemId turn.claimedBy turn.claimToken)
    (hplain : overwritten snapshot.id (t ++ [.answer p ⟨op, r⟩]) = false) :
    s'.transactions.revisionOf snapshot.id = revision := by
  rw [overwritten_append, Bool.or_eq_false_iff] at hplain
  have hbefore := h.latest q turn snapshot revision hturn hlast hholds hplain.1
  have hunwritten : ∀ {tx : Transaction} {expectedRevision : Option ℤ}
      {queueItemId claimToken : String} {written : ℤ}, tx.id ≠ snapshot.id →
      TransactionDb.Written tx expectedRevision queueItemId claimToken s.transactions written
        s'.transactions → s'.transactions.revisionOf snapshot.id = revision := by
    intro tx _ _ _ _ hid hwritten
    rw [hwritten.revisionOf, if_neg hid, Int.add_zero]
    exact hbefore
  cases op with
  | queue op =>
    rw [hexec.2]
    exact hbefore
  | saveFenced tx queueItemId claimedBy claimToken expectedRevision initial =>
    rcases WorkerOp.Exec.fenced hledger.consistent hexec with ⟨rfl, -⟩ | ⟨written, rfl, hfenced⟩
    · exact hbefore
    · refine hunwritten (fun hid => ?_) hfenced.written
      obtain ⟨prog', evs', hcall', hturn'⟩ := exists_call_of_turnAt hturn
      have htied := hbindings.turns q prog' evs' turn hcall' hturn'
      obtain ⟨hlast', hne⟩ := htied.last _ _ hlast
      have hbound := htied.bound hne
      rw [← hlast', ← hid] at hbound
      exact hother (h.saved_by_holder hledger hbindings hcall hobserves hfenced hturn hholds hbound)
        _ _ _ _ _ _ rfl
  | saveTransaction tx =>
    rcases WorkerOp.Exec.plain hledger.consistent hexec with ⟨rfl, -⟩ | ⟨rfl, -, -, _, hwritten⟩
    · exact hbefore
    · refine hunwritten (fun hid => ?_) hwritten
      have hover := hplain.2
      simp [overwritten, PoolLabel.overwrites, hid] at hover
  | load id =>
    obtain rfl := (WorkerOp.Exec.load hexec).1
    exact hbefore
  | outside op =>
    obtain rfl : s' = s := hexec
    exact hbefore

/-- **The holder of a claim is up to date after every step.** -/
lemma latest_step (h : Exclusive t s) (hledger : Ledger t s) (hbindings : Bindings t s)
    (hcall : callOf p t = some (prog, evs)) (hobserves : Observes true evs op)
    (hexec : op.Exec s r s') {q : ℕ} {turn : Turn} {snapshot : Transaction} {revision : ℤ}
    (hturn : turnAt q (t ++ [.answer p ⟨op, r⟩]) = some turn)
    (hlast : turn.last = some (snapshot, revision))
    (hholds : s'.queue.db.Holds turn.itemId turn.claimedBy turn.claimToken)
    (hplain : overwritten snapshot.id (t ++ [.answer p ⟨op, r⟩]) = false) :
    s'.transactions.revisionOf snapshot.id = revision := by
  have hledger' := hledger.answer hcall hobserves hexec
  rw [turnAt_answer hcall] at hturn
  -- a turn that knew the snapshot before
  have hkept : ∀ {turn₀ : Turn}, turnAt q t = some turn₀ →
      turn₀.last = some (snapshot, revision) → turn.itemId = turn₀.itemId →
      turn.claimedBy = turn₀.claimedBy → turn.claimToken = turn₀.claimToken →
      (p = q → ∀ tx queueItemId claimedBy claimToken expectedRevision initial,
        op ≠ .saveFenced tx queueItemId claimedBy claimToken expectedRevision initial) →
      s'.transactions.revisionOf snapshot.id = revision := by
    intro turn₀ hturn₀ hlast₀ hitem hby htoken hother
    rw [hitem, hby, htoken] at hholds
    exact h.latest_kept hledger hbindings hcall hobserves hexec hother hturn₀ hlast₀
      ((h.claimed q turn₀ hturn₀).held hledger hledger' hobserves hexec hholds) hplain
  split at hturn
  · next hq =>
    subst hq
    cases op with
    | queue op =>
      cases Turn.follow_moves hturn with
      | claim => cases hlast
      | quiet hg => exact hkept hg hlast rfl rfl rfl fun _ _ _ _ _ _ _ heq => by cases heq
    | saveFenced tx queueItemId claimedBy claimToken expectedRevision initial =>
      rcases WorkerOp.Exec.fenced hledger.consistent hexec with
        ⟨rfl, err, rfl⟩ | ⟨written, rfl, hfenced⟩
      · have hbefore : overwritten snapshot.id t = false := by
          rw [overwritten_append, Bool.or_eq_false_iff] at hplain
          exact hplain.1
        exact h.latest p turn snapshot revision hturn hlast hholds hbefore
      · obtain ⟨turn₀, -, rfl⟩ := Option.map_eq_some_iff.mp hturn
        cases hlast
        rw [hfenced.written.revisionOf, if_pos rfl, hfenced.written.revision]
    | saveTransaction tx =>
      cases Turn.follow_moves hturn with
      | quiet hg => exact hkept hg hlast rfl rfl rfl fun _ _ _ _ _ _ _ heq => by cases heq
    | load id =>
      cases Turn.follow_moves hturn with
      | @load turn₀ id tx revision' hg =>
        by_cases hload : turn₀.last = none ∧ id = turn₀.transactionId ∧ id ≠ ""
        · rw [Turn.load, if_pos hload] at hlast
          cases hlast
          obtain ⟨rfl, hloaded⟩ := WorkerOp.Exec.load hexec
          obtain ⟨rfl, rfl, -⟩ := TransactionDb.load_agrees (hloaded _ rfl)
          rfl
        · rw [Turn.load, if_neg hload] at hlast hkept
          exact hkept hg hlast rfl rfl rfl fun _ _ _ _ _ _ _ heq => by cases heq
      | quiet hg => exact hkept hg hlast rfl rfl rfl fun _ _ _ _ _ _ _ heq => by cases heq
    | outside op =>
      cases Turn.follow_moves hturn with
      | callback hg => exact hkept hg hlast rfl rfl rfl fun _ _ _ _ _ _ _ heq => by cases heq
      | quiet hg => exact hkept hg hlast rfl rfl rfl fun _ _ _ _ _ _ _ heq => by cases heq
  · next hq => exact hkept hturn hlast rfl rfl rfl fun heq => absurd heq hq

/-- **A step keeps the invariant.** -/
theorem answer (h : Exclusive t s) (hledger : Ledger t s) (hbindings : Bindings t s)
    (hcall : callOf p t = some (prog, evs)) (hobserves : Observes true evs op)
    (hexec : op.Exec s r s') : Exclusive (t ++ [.answer p ⟨op, r⟩]) s' where
  claimed q turn hturn := by
    rw [turnAt_answer hcall] at hturn
    split at hturn
    · next hq =>
      subst hq
      rcases (Turn.follow_moves hturn).claimed with
        ⟨selected, workerId, now, token, row, hev, rfl⟩ | ⟨turn₀, hturn₀, hitem, hby, htoken⟩
      · cases hev
        obtain ⟨hrow, hheld, -⟩ := QueueOp.Exec.claimed hexec.1 hledger.accounted
        exact Or.inl ⟨row, hrow, hheld⟩
      · have hclaimed := (h.claimed p turn₀ hturn₀).step hledger hobserves hexec
        rwa [Turn.Claimed, ← hitem, ← hby, ← htoken] at hclaimed
    · exact (h.claimed q turn hturn).step hledger hobserves hexec
  apart q q' turn turn' hturn hturn' hne hitem := by
    rw [turnAt_answer hcall] at hturn hturn'
    split at hturn
    · next hq =>
      subst hq
      rw [if_neg hne] at hturn'
      exact h.apart_step hledger hexec (Turn.follow_moves hturn) hturn' hne hitem
    · split at hturn'
      · next hq' =>
        subst hq'
        exact (h.apart_step hledger hexec (Turn.follow_moves hturn') hturn hne.symm
          hitem.symm).symm
      · exact h.apart q q' turn turn' hturn hturn' hne hitem
  latest _ _ _ _ := h.latest_step hledger hbindings hcall hobserves hexec

end Exclusive

/-! ## Every run -/

/-- How a step moves the last claim of a process in its call. -/
def PoolLabel.lastClaim (p : ℕ) (claimed : Option QueueRow) : WorkerLabel → Option QueueRow
  | .start q _ => if q = p then none else claimed
  | .answer q ⟨.queue (.claim _ _ _ _), .ok (some row)⟩ => if q = p then some row else claimed
  | _ => claimed

/-- The row that a process has claimed last, in the call that it is in. -/
def lastClaim (p : ℕ) (t : List WorkerLabel) : Option QueueRow :=
  t.foldl (PoolLabel.lastClaim p) none

/-- One more step. -/
lemma lastClaim_append (p : ℕ) (t : List WorkerLabel) (l : WorkerLabel) :
    lastClaim p (t ++ [l]) = l.lastClaim p (lastClaim p t) := by
  simp [lastClaim]

/-- A step of another process. -/
lemma PoolLabel.lastClaim_other {p q : ℕ} {claimed : Option QueueRow}
    (ev : Event WorkerOp WorkerOp.Res) (h : q ≠ p) :
    PoolLabel.lastClaim p claimed (.answer q ev) = claimed := by
  unfold PoolLabel.lastClaim
  split
  · next heq => cases heq
  · next heq =>
    cases heq
    rw [if_neg h]
  · rfl

section Runs

variable {t : List WorkerLabel} {P P' : WorkerPool}

/-- **The invariant holds in every run of an orderly fleet.** -/
theorem FleetRun.exclusive (h : FleetRun t P) : Exclusive t P.shared := by
  refine (Machine.Run.induct (I := fun t s => Ledger t s ∧ Bindings t s ∧ Exclusive t s) h
    ⟨Ledger.init, Bindings.init, Exclusive.init⟩ ?_ ?_).2.2
  · rintro t₁ p prog t₂ s - ⟨hledger, hbindings, hs⟩
    exact ⟨hledger.start prog, hbindings.start prog, hs.start prog⟩
  · rintro t₁ p op r t₂ s s' ht hexec ⟨hledger, hbindings, hs⟩
    obtain ⟨prog, evs, hcall, hobserves⟩ := RunOf.observes (fun _ hcall => hcall.wp) h ht
    exact ⟨hledger.answer hcall hobserves hexec, hbindings.answer hledger hcall hobserves hexec,
      hs.answer hledger hbindings hcall hobserves hexec⟩

/-- The claim of a turn is the last one of its process. -/
lemma lastClaim_of_turnAt {p : ℕ} {turn : Turn} (h : turnAt p t = some turn) :
    ∃ row, lastClaim p t = some row ∧ turn.itemId = row.id ∧ turn.claimedBy = row.claimedBy ∧
      turn.claimToken = row.claimToken := by
  induction t using List.reverseRecOn generalizing turn with
  | nil => cases h
  | append_singleton t l ih =>
    rw [lastClaim_append]
    cases l with
    | start q prog =>
      rw [turnAt_start] at h
      split at h
      · cases h
      · next hq =>
        rw [PoolLabel.lastClaim, if_neg hq]
        exact ih h
    | answer q ev =>
      cases hcall : callOf q t with
      | none =>
        -- a process that is in no call is given no answer
        have hq : q ≠ p := by
          rintro rfl
          simp [turnAt, PoolLabel.follow, hcall] at h
        rw [PoolLabel.lastClaim_other _ hq]
        exact ih (by simpa [turnAt, PoolLabel.follow, hq] using h)
      | some call =>
        rw [turnAt_answer hcall] at h
        split at h
        · next hq =>
          subst hq
          unfold Turn.follow at h
          split at h
          · cases h
            exact ⟨_, if_pos rfl, rfl, rfl, rfl⟩
          · obtain ⟨turn₀, hturn₀, rfl⟩ := Option.map_eq_some_iff.mp h
            obtain ⟨row, hrow, hclaim⟩ := ih hturn₀
            refine ⟨row, hrow, ?_⟩
            unfold Turn.load
            split <;> exact hclaim
          · obtain ⟨turn₀, hturn₀, rfl⟩ := Option.map_eq_some_iff.mp h
            obtain ⟨row, hrow, hclaim⟩ := ih hturn₀
            exact ⟨row, hrow, hclaim⟩
          · obtain ⟨turn₀, hturn₀, rfl⟩ := Option.map_eq_some_iff.mp h
            obtain ⟨row, hrow, hclaim⟩ := ih hturn₀
            exact ⟨row, hrow, hclaim⟩
          · next hclaim _ _ _ =>
            have hsame : PoolLabel.lastClaim q (lastClaim q t) (.answer q ev) = lastClaim q t := by
              unfold PoolLabel.lastClaim
              split
              · next heq => cases heq
              · next heq =>
                cases heq
                exact (hclaim _ _ _ _ _ rfl).elim
              · rfl
            rw [hsame]
            exact ih h
        · next hq =>
          rw [PoolLabel.lastClaim_other _ hq]
          exact ih h

/-- **No step that was successful is executed again under a current claim.** Whenever a process of
an orderly fleet executes a step, it has claimed an item before in the same call. If that claim is
current, the item is bound to the transaction that is executed, and the step is not successful in
the transaction as it is stored, as long as nobody has saved it without a claim. So whatever was
recorded of a step before a crash, a lost lease or a retry, the worker that comes next honours it.

**Proof sketch.** The engine executes no step that is successful in the last snapshot that it has
saved or continued (`Engine.wp_body_saves`), and for the holder of the claim that snapshot is the
stored one (`Exclusive`). -/
theorem succeeded_not_executed {p : ℕ} {step : Step} {tx : Transaction} {r : StepResult}
    (h : FleetRun t P) (hstep : workerMachine.Step FleetCall P
      (.answer p ⟨.outside (.run (.item (.engine (.execute step tx)))), r⟩) P') :
    ∃ row, lastClaim p t = some row ∧
      (P.shared.queue.db.Holds row.id row.claimedBy row.claimToken →
        overwritten tx.id t = false → P.shared.queue.db.Bound row.id tx.id ∧
          ¬ P.shared.transactions.Succeeded tx.id step.key) := by
  obtain ⟨prog, evs, hcall, hobserves⟩ :=
    RunOf.observes (fun _ hcall => hcall.wp) (Machine.Run.snoc h hstep) rfl
  obtain ⟨turn, hturn, snapshot, revision, hlast, hid, hfresh⟩ := hobserves.orderly rfl
  have hat : turnAt p t = some turn := (turnAt_of_call hcall).trans hturn
  obtain ⟨row, hrow, hitem, hby, htoken⟩ := lastClaim_of_turnAt hat
  refine ⟨row, hrow, fun hholds hplain => ?_⟩
  rw [← hitem, ← hby, ← htoken] at hholds
  rw [← hid] at hplain
  have htied := (FleetRun.bindings h).turns p prog evs turn hcall hturn
  obtain ⟨hlast', hne⟩ := htied.last _ _ hlast
  have hlatest := (FleetRun.exclusive h).latest p turn snapshot revision hat hlast hholds hplain
  have hknown := (FleetRun.workerRun h).ledger.known p prog evs turn snapshot revision hcall hturn
    hlast
  rw [← hitem, ← hid]
  refine ⟨hlast' ▸ htied.bound hne, fun hsucceeded => hfresh ?_⟩
  exact ((hknown.agrees hlatest).steps step.key).mp hsucceeded

/-- The process is about to execute a step under a current claim, of a transaction that nobody has
saved without one. -/
def executes (p : ℕ) (t : List WorkerLabel) (P : WorkerPool) : Bool :=
  match P.procs p with
  | .call (.outside (.run (.item (.engine (.execute _ tx))))) _ =>
      !overwritten tx.id t && (lastClaim p t).any fun row =>
        P.shared.queue.db.items.any (QueueDb.isHeld row.id row.claimedBy row.claimToken)
  | _ => false

/-- Process 1 executes the step under its claim, and the step is not successful before. -/
theorem succeeded_not_executed_stepping : ∃ (step : Step) (tx : Transaction) (row : QueueRow),
    lastClaim 1 (cutLabels 19) = some row ∧
    (cutWorkers 19).shared.queue.db.Holds row.id row.claimedBy row.claimToken ∧
    (cutWorkers 19).shared.queue.db.Bound row.id tx.id ∧
    ¬ (cutWorkers 19).shared.transactions.Succeeded tx.id step.key := by
  obtain ⟨hrun, -⟩ := cutWorkers_run 19
  have hexecutes : executes 1 (cutLabels 19) (cutWorkers 19) = true := by decide +kernel
  unfold executes at hexecutes
  split at hexecutes
  · next step tx k hcall =>
    obtain ⟨row, hrow, hnot⟩ := succeeded_not_executed hrun
      (.answer hcall (show workerMachine.exec (cutWorkers 19).shared _ (default : StepResult)
        (cutWorkers 19).shared from rfl))
    have hclaim : lastClaim 1 (cutLabels 19) = some row := hrow
    rw [hclaim, Option.any_some, Bool.and_eq_true, Bool.not_eq_true'] at hexecutes
    have hholds : (cutWorkers 19).shared.queue.db.Holds row.id row.claimedBy row.claimToken :=
      List.any_eq_true.mp hexecutes.2
    obtain ⟨hbound, hfresh⟩ := hnot hholds hexecutes.1
    exact ⟨step, tx, row, hclaim, hholds, hbound, hfresh⟩
  · cases hexecutes

end Runs
