import RpaCore.Runner.PostProcessing

set_option relaxedAutoImplicit false
set_option autoImplicit false

/-!
# Notifiers do not disturb each other

What `dispatch` does is a sequence of deliveries, one for each notifier and in their order. A
delivery is the attempts of its notifier with the waits between them, and the callback if the last
attempt has failed. Where the attempts stop is decided by their own outcomes.

## Main definitions

* `Attempts` — outcomes of the attempts of one notifier, as the retry rule allows them.
* `Dispatched`, `Dispatched.events` — what `dispatch` does about one notifier.

## Main results

* `Attempts.eq` — outcomes that agree as far as both go are the same.
* `dispatch_isolates` — `dispatch` returns, after one delivery for each notifier.
-/

/-- The attempt failed, in a way that may go away. -/
def Retryable (outcome : Option SendError) : Prop :=
  ∃ err, outcome = some err ∧ err.isRetryable = true

/-- The outcomes of the attempts of one notifier, of which at most `limit` are made: a failure that
may go away is followed by another attempt, and nothing else is. -/
structure Attempts (limit : ℕ) (outcomes : List (Option SendError)) : Prop where
  nonempty : outcomes ≠ []
  length_le : outcomes.length ≤ limit
  again : ∀ outcome ∈ outcomes.dropLast, Retryable outcome
  last : ∀ outcome, outcomes.getLast? = some outcome →
    ¬ Retryable outcome ∨ outcomes.length = limit

namespace Attempts

variable {limit : ℕ} {outcome : Option SendError} {outcomes outcomes' : List (Option SendError)}

/-- The only attempt. -/
lemma single (hlimit : 0 < limit) (h : ¬ Retryable outcome ∨ limit = 1) :
    Attempts limit [outcome] where
  nonempty := List.cons_ne_nil _ _
  length_le := hlimit
  again := by simp
  last := by
    rintro _ ⟨⟩
    exact h.imp_right Eq.symm

/-- One attempt before others. -/
lemma cons (h : Retryable outcome) (hrest : Attempts limit outcomes) :
    Attempts (limit + 1) (outcome :: outcomes) where
  nonempty := List.cons_ne_nil _ _
  length_le := Nat.succ_le_succ hrest.length_le
  again := by
    rw [List.dropLast_cons_of_ne_nil hrest.nonempty]
    exact List.forall_mem_cons.mpr ⟨h, hrest.again⟩
  last := by
    obtain ⟨first, rest, rfl⟩ := List.exists_cons_of_ne_nil hrest.nonempty
    intro last hlast
    rw [List.getLast?_cons_cons] at hlast
    exact (hrest.last last hlast).imp_right (congrArg Nat.succ)

/-- What remains after the first of several attempts. -/
lemma tail (h : Attempts (limit + 1) (outcome :: outcomes)) (hne : outcomes ≠ []) :
    Retryable outcome ∧ Attempts limit outcomes := by
  have hagain := h.again
  rw [List.dropLast_cons_of_ne_nil hne, List.forall_mem_cons] at hagain
  refine ⟨hagain.1, hne, Nat.le_of_succ_le_succ h.length_le, hagain.2, fun last hlast => ?_⟩
  obtain ⟨first, rest, rfl⟩ := List.exists_cons_of_ne_nil hne
  exact (h.last last (by rwa [List.getLast?_cons_cons])).imp_right Nat.succ.inj

/-- **The outcomes decide where the attempts stop**: outcomes that agree as far as both go are the
same. -/
theorem eq (h : Attempts limit outcomes) (h' : Attempts limit outcomes')
    (hagree : ∀ (k : ℕ) (outcome outcome' : Option SendError), outcomes[k]? = some outcome →
      outcomes'[k]? = some outcome' → outcome = outcome') : outcomes = outcomes' := by
  induction outcomes generalizing limit outcomes' with
  | nil => exact absurd rfl h.nonempty
  | cons outcome rest ih =>
    obtain ⟨outcome', rest', rfl⟩ := List.exists_cons_of_ne_nil h'.nonempty
    obtain ⟨limit, rfl⟩ : ∃ n, limit = n + 1 := by
      have := h.length_le
      exact ⟨limit - 1, by simp at this; omega⟩
    obtain rfl : outcome = outcome' := hagree 0 _ _ rfl rfl
    -- one side stops where the other goes on
    have hstop : ∀ {outcomes : List (Option SendError)}, outcomes ≠ [] →
        Attempts (limit + 1) [outcome] → Attempts (limit + 1) (outcome :: outcomes) → False := by
      intro outcomes hne hone hmore
      obtain ⟨hretry, hrest⟩ := hmore.tail hne
      rcases hone.last outcome rfl with hno | hlimit
      · exact hno hretry
      · have hle := hrest.length_le
        have hpos := List.length_pos_of_ne_nil hne
        simp only [List.length_singleton] at hlimit
        omega
    by_cases hrest : rest = []
    · subst hrest
      by_cases hrest' : rest' = []
      · rw [hrest']
      · exact (hstop hrest' h h').elim
    · by_cases hrest' : rest' = []
      · subst hrest'
        exact (hstop hrest h' h).elim
      · rw [ih (h.tail hrest).2 (h'.tail hrest').2 fun k => hagree (k + 1)]

end Attempts

/-! ## Deliveries -/

/-- An event of `dispatch`. -/
abbrev DispatchEvent := Event DispatchOp DispatchOp.Res

/-- The attempts of a notifier from attempt `k` on, with the waits between them. -/
def attemptEvents (notifier : Notifier) : ℕ → List (Option SendError) → List DispatchEvent
  | _, [] => []
  | k, [outcome] => [⟨.send notifier k, outcome⟩]
  | k, outcome :: outcomes =>
    ⟨.send notifier k, outcome⟩ :: ⟨.wait k, ()⟩ :: attemptEvents notifier (k + 1) outcomes

/-- What `dispatch` does about one notifier: the outcomes of its attempts and the answers of the
callback. -/
structure Dispatched where
  notifier : Notifier
  outcomes : List (Option SendError)
  callbacks : List (Option PyError)

namespace Dispatched

/-- The last attempt has failed. -/
def failed (d : Dispatched) : Bool := d.outcomes.getLast?.any Option.isSome

/-- The events of a delivery. -/
def events (d : Dispatched) : List DispatchEvent :=
  attemptEvents d.notifier 1 d.outcomes ++
    d.callbacks.map fun answer => ⟨.failed d.notifier.name, answer⟩

/-- A delivery as the code makes it: at most three attempts, and one callback for a failure. -/
structure Follows (hasCallback : Bool) (d : Dispatched) : Prop where
  attempts : Attempts 3 d.outcomes
  callbacks : d.callbacks.length = if hasCallback && d.failed then 1 else 0

end Dispatched

/-! ## The code -/

/-- The monitor that records the events of `dispatch`, while ordinary exceptions are raised at
most. -/
abbrev dispatchMonitor : Monitor DispatchOp DispatchOp.Res (List DispatchEvent) :=
  traceMonitor (fun _ _ => True) fun _ op answer => op.Ordinary answer

variable {S : Type} {s : S} {t : List DispatchEvent} {notifier : Notifier} {hasCallback : Bool}

/-- **The attempts of a notifier** follow the retry rule. -/
lemma wp_sendAttempts_events {n : ℕ} (hn : n < 3) :
    (sendAttempts (S := S) notifier (n + 1)).wp dispatchMonitor
      (fun failed _ t' => ∃ outcomes, Attempts (n + 1) outcomes ∧
        t' = t ++ attemptEvents notifier (3 - n) outcomes ∧
        failed = outcomes.getLast?.any Option.isSome)
      (fun _ _ _ => False) s t := by
  induction n generalizing t with
  | zero =>
    simp only [sendAttempts, Proc.wp_bind, Proc.wp_call]
    refine ⟨trivial, fun answer hanswer => ?_⟩
    split
    · exact ⟨[none], .single Nat.one_pos (.inr rfl), rfl, rfl⟩
    · next err => exact hanswer err rfl
    · next err hfatal =>
      exact ⟨[some err], .single Nat.one_pos (.inr rfl), rfl, rfl⟩
  | succ n ih =>
    rw [sendAttempts, Proc.wp_bind, Proc.wp_call]
    refine ⟨trivial, fun answer hanswer => ?_⟩
    split
    · refine ⟨[none], .single (Nat.succ_pos _) (.inl ?_), rfl, rfl⟩
      rintro ⟨err, heq, -⟩
      cases heq
    · next err => exact hanswer err rfl
    · next err hfatal =>
      refine Proc.wp_ite (fun hstop => ?_) fun hgo => ?_
      · refine ⟨[some err], .single (Nat.succ_pos _) (.inl ?_), rfl, rfl⟩
        rintro ⟨err', heq, hretry⟩
        cases heq
        simp [hretry] at hstop
      · have hretry : Retryable (some err) := ⟨err, rfl, by simpa using hgo⟩
        simp only [Proc.wp_bind, Proc.wp_call]
        refine ⟨trivial, fun _ _ => Proc.wp_mono (ih (by omega)) ?_ fun _ _ _ h => h⟩
        rintro failed _ _ ⟨outcomes, hattempts, rfl, hfailed⟩
        obtain ⟨first, rest, rfl⟩ := List.exists_cons_of_ne_nil hattempts.nonempty
        refine ⟨some err :: first :: rest, hattempts.cons hretry, ?_, ?_⟩
        · have hk : 3 - n = 3 - (n + 1) + 1 := by omega
          simp [attemptEvents, traceMonitor, hk]
        · rw [hfailed, List.getLast?_cons_cons]

/-- **The handler of a notifier that has failed** calls the callback once, if there is one. -/
lemma wp_reportFailure_events :
    (reportFailure (S := S) notifier hasCallback).wp dispatchMonitor
      (fun _ _ t' => ∃ callbacks : List (Option PyError),
        callbacks.length = (if hasCallback then 1 else 0) ∧
        t' = t ++ callbacks.map fun answer => ⟨.failed notifier.name, answer⟩)
      (fun _ _ _ => False) s t := by
  unfold reportFailure
  refine Proc.wp_ite (fun hc => ?_) fun hc => ⟨[], by simp [hc], by simp⟩
  simp only [Proc.wp_bind, Proc.wp_call]
  refine ⟨trivial, fun answer hanswer => ?_⟩
  have hone : ∃ callbacks : List (Option PyError),
      callbacks.length = (if hasCallback then 1 else 0) ∧
      t ++ [⟨.failed notifier.name, answer⟩] =
        t ++ callbacks.map fun answer => (⟨.failed notifier.name, answer⟩ : DispatchEvent) :=
    ⟨[answer], by simp [hc], rfl⟩
  split
  · exact hone
  · next err =>
    rw [if_pos (hanswer err rfl)]
    exact hone

/-- **`dispatch` makes one delivery for each notifier**, in their order. -/
theorem wp_dispatch_events {notifiers : List Notifier} :
    (dispatch (S := S) hasCallback notifiers).wp dispatchMonitor
      (fun _ _ t' => ∃ ds : List Dispatched, ds.map Dispatched.notifier = notifiers ∧
        (∀ d ∈ ds, d.Follows hasCallback) ∧ t' = t ++ (ds.map Dispatched.events).flatten)
      (fun _ _ _ => False) s t := by
  induction notifiers generalizing s t with
  | nil => exact ⟨[], rfl, by simp, by simp⟩
  | cons notifier rest ih =>
    simp only [dispatch, Proc.wp_bind]
    refine Proc.wp_mono (wp_sendAttempts_events (by decide)) ?_ fun _ _ _ h => h
    rintro failed s₁ _ ⟨outcomes, hattempts, rfl, hfailed⟩
    have hrest : ∀ (callbacks : List (Option PyError)) (s : S),
        callbacks.length = (if hasCallback && failed then 1 else 0) →
        (dispatch hasCallback rest).wp dispatchMonitor
          (fun _ _ t' => ∃ ds : List Dispatched, ds.map Dispatched.notifier = notifier :: rest ∧
            (∀ d ∈ ds, d.Follows hasCallback) ∧ t' = t ++ (ds.map Dispatched.events).flatten)
          (fun _ _ _ => False) s (t ++ attemptEvents notifier 1 outcomes ++
            callbacks.map fun answer => ⟨.failed notifier.name, answer⟩) := by
      intro callbacks s hlength
      refine Proc.wp_mono ih ?_ fun _ _ _ h => h
      rintro _ _ _ ⟨ds, hnotifiers, hfollows, rfl⟩
      refine ⟨⟨notifier, outcomes, callbacks⟩ :: ds, ?_, ?_, ?_⟩
      · rw [List.map_cons, hnotifiers]
      · refine List.forall_mem_cons.mpr ⟨⟨hattempts, ?_⟩, hfollows⟩
        rw [hlength, hfailed]
        rfl
      · simp [Dispatched.events]
    split
    · next hfail =>
      rw [Proc.wp_bind]
      refine Proc.wp_mono wp_reportFailure_events ?_ fun _ _ _ h => h
      rintro _ s₂ _ ⟨callbacks, hlength, rfl⟩
      exact hrest callbacks s₂ (by simpa [hfail] using hlength)
    · next hok =>
      have := hrest [] s₁ (by simp [hok])
      simpa using this

/-- **Notification dispatch isolates notifiers.** For every list of notifiers and every way of
answering the calls, as long as the attempts and the callback raise ordinary exceptions at most:
`dispatch` returns, and what it does is one delivery for each notifier, in the order of the list.
A delivery makes between one and three attempts, goes on exactly after a failure that may go away,
and calls the callback once if its last attempt has failed, and not otherwise. Its attempts depend
on nothing but their own outcomes: a delivery of any other run, whose outcomes agree with these as
far as both go, has made the same attempts. -/
theorem dispatch_isolates (hasCallback : Bool) (notifiers : List Notifier)
    (env : List DispatchEvent → (op : DispatchOp) → op.Res)
    (henv : ∀ t (op : DispatchOp), op.Ordinary (env t op)) :
    ((Proc.start (dispatch (S := Unit) hasCallback notifiers) ()).run env []).1 = (.ok (), ()) ∧
      ∃ ds : List Dispatched, ds.map Dispatched.notifier = notifiers ∧
        ((Proc.start (dispatch (S := Unit) hasCallback notifiers) ()).run env []).2 =
          (ds.map Dispatched.events).flatten ∧
        ∀ d ∈ ds, d.Follows hasCallback ∧ ∀ (hasCallback' : Bool) (d' : Dispatched),
          d'.Follows hasCallback' →
          (∀ (k : ℕ) (outcome outcome' : Option SendError), d.outcomes[k]? = some outcome →
            d'.outcomes[k]? = some outcome' → outcome = outcome') → d.outcomes = d'.outcomes := by
  obtain ⟨-, hpost⟩ := Prog.wp_run_trace env
    (@wp_dispatch_events Unit () [] hasCallback notifiers) henv
  revert hpost
  generalize (Proc.start (dispatch (S := Unit) hasCallback notifiers) ()).run env [] = r
  obtain ⟨⟨err | _, _⟩, t⟩ := r
  · exact fun hpost => hpost.elim
  · rintro ⟨ds, hnotifiers, hfollows, rfl⟩
    exact ⟨rfl, ds, hnotifiers, rfl, fun d hd => ⟨hfollows d hd, fun _ d' hd' hagree =>
      (hfollows d hd).attempts.eq hd'.attempts hagree⟩⟩

/-- Answers of a busy first notifier, and of others that succeed; the callback raises. -/
def busyAnswers : (op : DispatchOp) → op.Res
  | .send notifier _ => if notifier.index = 0 then some (.http 503) else none
  | .wait _ => ()
  | .failed _ => some (.keyError "callback")

/-- A busy notifier does not keep the next one from its attempt. -/
theorem dispatch_isolates_busy :
    (∀ op : DispatchOp, op.Ordinary (busyAnswers op)) ∧
      ((Proc.start (dispatch (S := Unit) true [⟨"Webhook", 0⟩, ⟨"Email", 1⟩]) ()).run
        (fun _ => busyAnswers) []).1 = (.ok (), ()) := by
  have hordinary : ∀ op : DispatchOp, op.Ordinary (busyAnswers op) := by
    intro op
    cases op with
    | send notifier attempt =>
      intro err
      simp only [busyAnswers]
      split <;> simp
    | wait seconds => trivial
    | failed name =>
      rintro err ⟨⟩
      trivial
  exact ⟨hordinary, (dispatch_isolates true [⟨"Webhook", 0⟩, ⟨"Email", 1⟩] (fun _ => busyAnswers)
    fun _ => hordinary).1⟩
