import Mathlib.Data.List.Induction
import RpaCore.Model.Transaction

set_option relaxedAutoImplicit false
set_option autoImplicit false

/-!
# The passes of a run

What a run does between its beginning and its end, without the engine: a run is a list of passes,
and a pass is a list of attempts at steps that may end with skipped steps. A pass works through the
steps that are still to be done; what it leaves is what the next pass starts with. The labels are
the history entries that passes stand for, without their numbers and times.

## Main definitions

* `Ending`, `Attempt`, `Pass` — the passes of a run.
* `Pass.Covers`, `Schedule` — what a pass does with the work, and what a list of passes does.
* `Label`, `runLabels` — the history that a list of passes stands for.
* `Pass.WellFormed` — the order of the attempts and of the skips of a pass.

## Main results

* `Schedule.wellFormed` — the passes of a schedule are well formed.
* `Step.denoted_concat` — the status that labels denote, label by label.
-/

/-! ## Attempts and passes -/

/-- The name and the execution order of a step. -/
abbrev StepKey := String × ℤ

/-- How an attempt at a step ends. -/
inductive Ending
  | succeeded
  | skipped
  | businessFailed (halts : Bool)
  | systemFailed
  deriving DecidableEq

namespace Ending

/-- The attempt is the last one of its pass. -/
def stops : Ending → Bool
  | succeeded => false
  | skipped => false
  | businessFailed halts => halts
  | systemFailed => true

/-- The history event of the ending. -/
def event : Ending → HistoryEvent
  | succeeded => .stepSucceeded
  | skipped => .stepSkipped
  | businessFailed _ => .stepFailed
  | systemFailed => .stepFailed

/-- The status that the ending leaves its step in. -/
def status : Ending → Status
  | succeeded => .successful
  | skipped => .skipped
  | businessFailed _ => .failed
  | systemFailed => .failed

end Ending

/-- An attempt at a step. -/
structure Attempt where
  key : StepKey
  ending : Ending
  deriving DecidableEq

/-- A pass: its attempts, and the steps that a halting failure then skips. -/
structure Pass where
  attempts : List Attempt
  skips : List StepKey

namespace Pass

/-- The pass with one more attempt. -/
def snoc (p : Pass) (a : Attempt) : Pass := { p with attempts := p.attempts ++ [a] }

/-- The steps of a pass, in the order of its history entries. -/
def keys (p : Pass) : List StepKey := p.attempts.map Attempt.key ++ p.skips

/-- **A well-formed pass** over the steps with the given keys: its steps come in strictly
increasing execution order, no attempt but the last one stops it, and steps are skipped after a
halting business failure only. -/
structure WellFormed (known : List StepKey) (p : Pass) : Prop where
  increasing : p.keys.Pairwise fun a b => a.2 < b.2
  known : ∀ key ∈ p.keys, key ∈ known
  goesOn : ∀ a ∈ p.attempts.dropLast, a.ending.stops = false
  halted : p.skips ≠ [] → ∃ a ∈ p.attempts.getLast?, a.ending = .businessFailed true

/-- **What a pass does with the work**: it attempts all of it, up to a halting failure that skips
the rest, or up to a system failure whose step is left with the rest. -/
inductive Covers : List StepKey → Pass → List StepKey → Prop
  | all (attempts : List Attempt) (goesOn : ∀ a ∈ attempts, a.ending.stops = false) :
      Covers (attempts.map Attempt.key) ⟨attempts, []⟩ []
  | halted (attempts : List Attempt) (key : StepKey) (skips : List StepKey)
      (goesOn : ∀ a ∈ attempts, a.ending.stops = false) :
      Covers (attempts.map Attempt.key ++ key :: skips)
        ⟨attempts ++ [⟨key, .businessFailed true⟩], skips⟩ []
  | failed (attempts : List Attempt) (key : StepKey) (rest : List StepKey)
      (goesOn : ∀ a ∈ attempts, a.ending.stops = false) :
      Covers (attempts.map Attempt.key ++ key :: rest)
        ⟨attempts ++ [⟨key, .systemFailed⟩], []⟩ (key :: rest)

variable {work left : List StepKey} {p : Pass}

/-- The steps of a pass come first in its work. -/
lemma Covers.keys_prefix (h : p.Covers work left) : p.keys <+: work := by
  cases h with
  | all attempts => simp [keys]
  | halted attempts key skips => simp [keys]
  | failed attempts key rest => exact ⟨rest, by simp [keys]⟩

/-- A pass leaves the last steps of its work. -/
lemma Covers.left_suffix (h : p.Covers work left) : left <:+ work := by
  cases h with
  | all attempts => exact List.nil_suffix
  | halted attempts key skips => exact List.nil_suffix
  | failed attempts key rest => exact List.suffix_append _ _

/-- A pass over increasing work is well formed. -/
lemma Covers.wellFormed (h : p.Covers work left) {known : List StepKey}
    (hwork : work.Pairwise fun a b => a.2 < b.2) (hknown : ∀ key ∈ work, key ∈ known) :
    p.WellFormed known where
  increasing := hwork.sublist h.keys_prefix.sublist
  known key hkey := hknown key (h.keys_prefix.subset hkey)
  goesOn := by
    cases h with
    | all attempts goesOn => exact fun a ha => goesOn a ((List.dropLast_sublist _).subset ha)
    | halted attempts key skips goesOn => simpa using goesOn
    | failed attempts key rest goesOn => simpa using goesOn
  halted hskips := by
    cases h with
    | all attempts => exact absurd rfl hskips
    | halted attempts key skips => simp
    | failed attempts key rest => exact absurd rfl hskips

/-- Attempts that go on can be completed by attempts that succeed. -/
lemma covers_succeeded {attempts : List Attempt} (h : ∀ a ∈ attempts, a.ending.stops = false)
    (rest : List StepKey) : Covers (attempts.map Attempt.key ++ rest)
      ⟨attempts ++ rest.map fun key => ⟨key, .succeeded⟩, []⟩ [] := by
  have hgo : ∀ a ∈ attempts ++ rest.map fun key => (⟨key, .succeeded⟩ : Attempt),
      a.ending.stops = false := by
    refine List.forall_mem_append.mpr ⟨h, fun a ha => ?_⟩
    obtain ⟨key, -, rfl⟩ := List.mem_map.mp ha
    rfl
  have hall := Covers.all _ hgo
  rw [List.map_append, List.map_map] at hall
  simpa [Function.comp_def] using hall

end Pass

/-- **The passes of a run**: the first pass starts with all the work, every later one with what the
one before it has left. -/
inductive Schedule (work : List StepKey) : List Pass → List StepKey → Prop
  | start : Schedule work [] work
  | pass {passes : List Pass} {before left : List StepKey} {p : Pass}
      (h : Schedule work passes before) (retried : passes ≠ [] → before ≠ [])
      (covers : p.Covers before left) : Schedule work (passes ++ [p]) left

namespace Schedule

variable {work left : List StepKey} {passes : List Pass}

/-- What is left of the work are its last steps. -/
lemma suffix (h : Schedule work passes left) : left <:+ work := by
  induction h with
  | start => exact List.suffix_refl _
  | pass _ _ covers ih => exact covers.left_suffix.trans ih

/-- Before the first pass all the work is left. -/
lemma left_of_nil (h : Schedule work passes left) (hnil : passes = []) : left = work := by
  cases h with
  | start => rfl
  | pass _ _ _ => simp at hnil

/-- **The passes of a schedule are well formed**, when its work is in increasing order. -/
theorem wellFormed (h : Schedule work passes left) {known : List StepKey}
    (hwork : work.Pairwise fun a b => a.2 < b.2) (hknown : ∀ key ∈ work, key ∈ known) :
    ∀ p ∈ passes, p.WellFormed known := by
  induction h with
  | start => simp
  | pass h _ covers ih =>
    refine List.forall_mem_append.mpr ⟨ih, List.forall_mem_singleton.mpr ?_⟩
    exact covers.wellFormed (hwork.sublist h.suffix.sublist)
      fun key hkey => hknown key (h.suffix.subset hkey)

/-- What is left after its first step has been in no pass. -/
lemma not_mem_keys (h : Schedule work passes left) (hwork : work.Nodup) :
    ∀ key ∈ left.tail, ∀ p ∈ passes, key ∉ p.keys := by
  induction h with
  | start => simp
  | @pass passes before left p h retried covers ih =>
    have hbefore : before.Nodup := hwork.sublist h.suffix.sublist
    intro key hkey
    refine List.forall_mem_append.mpr ⟨ih key ?_, List.forall_mem_singleton.mpr ?_⟩
    · cases covers with
      | all attempts goesOn => simp at hkey
      | halted attempts first skips goesOn => simp at hkey
      | failed attempts first rest goesOn =>
        have hsuffix : rest <:+ (attempts.map Attempt.key ++ first :: rest).tail := by
          cases attempts with
          | nil => exact List.suffix_refl _
          | cons a attempts => exact ⟨attempts.map Attempt.key ++ [first], by simp⟩
        exact hsuffix.subset hkey
    · cases covers with
      | all attempts goesOn => simp at hkey
      | halted attempts first skips goesOn => simp at hkey
      | failed attempts first rest goesOn =>
        have hdisjoint := (List.nodup_append.mp
          (by simpa using hbefore : (attempts.map Attempt.key ++ [first] ++ rest).Nodup)).2.2
        intro hmem
        exact hdisjoint key (by simpa [Pass.keys] using hmem) key hkey rfl

/-- All the work but what is left after its first step has been in a pass. -/
lemma mem_keys (h : Schedule work passes left) (hpasses : passes ≠ []) :
    ∀ key ∈ work, key ∉ left.tail → ∃ p ∈ passes, key ∈ p.keys := by
  induction h with
  | start => exact absurd rfl hpasses
  | @pass passes before left p h retried covers ih =>
    intro key hkey hleft
    by_cases hbefore : key ∈ before
    · refine ⟨p, by simp, ?_⟩
      cases covers with
      | all attempts goesOn => simpa [Pass.keys] using hbefore
      | halted attempts first skips goesOn => simpa [Pass.keys] using hbefore
      | failed attempts first rest goesOn =>
        have hrest : key ∉ rest := hleft
        simpa [Pass.keys, hrest] using hbefore
    · have hfirst : passes ≠ [] := by
        rintro rfl
        exact hbefore (h.left_of_nil rfl ▸ hkey)
      obtain ⟨p', hp', hmem⟩ := ih hfirst key hkey fun htail => hbefore (List.mem_of_mem_tail htail)
      exact ⟨p', List.mem_append_left _ hp', hmem⟩

/-- The steps that are left after the first one are the later ones of the work. -/
lemma mem_rest_iff {first : StepKey} {rest : List StepKey}
    (h : Schedule work passes (first :: rest)) (hwork : work.Pairwise fun a b => a.2 < b.2)
    {key : StepKey} (hkey : key ∈ work) :
    key ∈ rest ↔ first.2 < key.2 := by
  obtain ⟨before, rfl⟩ := h.suffix
  obtain ⟨-, hleft, hbefore⟩ := List.pairwise_append.mp hwork
  refine ⟨fun hrest => (List.pairwise_cons.mp hleft).1 key hrest, fun hlt => ?_⟩
  rcases List.mem_append.mp hkey with hearlier | hlater
  · exact absurd (hbefore key hearlier first List.mem_cons_self) (not_lt.mpr hlt.le)
  · rcases List.mem_cons.mp hlater with rfl | hrest
    · exact absurd hlt (lt_irrefl _)
    · exact hrest

/-- **How the attempts of a run end**: where work is left, with the technical failure of its first
step; otherwise with another ending. -/
lemma getLast_attempts (h : Schedule work passes left) (hpasses : passes ≠ []) :
    (left = [] ∧ ∀ a ∈ (passes.flatMap Pass.attempts).getLast?, a.ending ≠ .systemFailed) ∨
      ∃ key rest, left = key :: rest ∧
        (passes.flatMap Pass.attempts).getLast? = some ⟨key, .systemFailed⟩ := by
  cases h with
  | start => exact absurd rfl hpasses
  | @pass passes before left p h retried covers =>
    rw [List.flatMap_append, List.flatMap_singleton]
    cases covers with
    | all attempts goesOn =>
      refine Or.inl ⟨rfl, fun a ha hsystem => ?_⟩
      cases attempts with
      | nil =>
        -- a pass without work is the first one
        obtain rfl : passes = [] := not_not.mp fun hne => retried hne rfl
        simp at ha
      | cons first attempts =>
        rw [List.getLast?_append_of_ne_nil _ (by simp)] at ha
        have hgo := goesOn a (List.mem_of_mem_getLast? ha)
        rw [hsystem] at hgo
        cases hgo
    | halted attempts key skips goesOn => exact Or.inl ⟨rfl, by simp⟩
    | failed attempts key rest goesOn => exact Or.inr ⟨key, rest, rfl, by simp⟩

end Schedule

/-! ## The history of a run -/

/-- A history entry without its number, its time and the status of the transaction. -/
structure Label where
  event : HistoryEvent
  step : Option StepKey
  retryNumber : ℕ
  deriving DecidableEq

/-- The label of a history entry. -/
def HistoryEntry.label (entry : HistoryEntry) : Label :=
  ⟨entry.event, entry.stepExecutionOrder.map fun order => (entry.stepName, order),
    entry.retryNumber⟩

/-- The labels of an attempt: `STEP_STARTED`, directly followed by its ending. -/
def Attempt.labels (retryNumber : ℕ) (a : Attempt) : List Label :=
  [⟨.stepStarted, some a.key, retryNumber⟩, ⟨a.ending.event, some a.key, retryNumber⟩]

/-- The labels of a pass: its attempts, then its skips. -/
def Pass.labels (retryNumber : ℕ) (p : Pass) : List Label :=
  p.attempts.flatMap (Attempt.labels retryNumber) ++
    p.skips.map fun key => ⟨.stepSkipped, some key, retryNumber⟩

/-- The labels of passes from the retry number of the first one: each later pass begins with
`RETRY_SCHEDULED`. -/
def passesLabels (retryNumber : ℕ) (passes : List Pass) : List Label :=
  passes.zipIdx.flatMap fun (p, i) =>
    (if i = 0 then [] else [⟨.retryScheduled, none, retryNumber + i⟩]) ++
      p.labels (retryNumber + i)

/-- **The labels of a run**: `TRANSACTION_STARTED`, the passes, then `TRANSACTION_COMPLETED` with
the number of the last pass. -/
def runLabels (retryNumber : ℕ) (passes : List Pass) : List Label :=
  ⟨.transactionStarted, none, retryNumber⟩ :: passesLabels retryNumber passes ++
    [⟨.transactionCompleted, none, retryNumber + (passes.length - 1)⟩]

/-- The labels of one more pass. -/
lemma passesLabels_concat (n : ℕ) (passes : List Pass) (p : Pass) :
    passesLabels n (passes ++ [p]) = passesLabels n passes ++
      ((if passes.length = 0 then [] else [⟨.retryScheduled, none, n + passes.length⟩]) ++
        p.labels (n + passes.length)) := by
  simp [passesLabels, List.zipIdx_append]

/-- The labels of one more attempt in the last pass. -/
lemma passesLabels_snoc (n : ℕ) (passes : List Pass) {p : Pass} (hp : p.skips = [])
    (a : Attempt) : passesLabels n (passes ++ [p.snoc a]) =
      passesLabels n (passes ++ [p]) ++ a.labels (n + passes.length) := by
  simp [passesLabels_concat, Pass.labels, Pass.snoc, hp]

/-! ## The last label of a step -/

/-- The event of the last label of a step. -/
def lastEvent (labels : List Label) (key : StepKey) : Option HistoryEvent :=
  (labels.filter fun label => label.step = some key).getLast?.map Label.event

/-- The event of a step after one more label. -/
@[simp] lemma lastEvent_concat (labels : List Label) (label : Label) (key : StepKey) :
    lastEvent (labels ++ [label]) key =
      if label.step = some key then some label.event else lastEvent labels key := by
  unfold lastEvent
  rw [List.filter_append]
  split
  · next h => simp [h]
  · next h => simp [h]

/-- The status that an event leaves its step in. -/
def HistoryEvent.leaves : HistoryEvent → Status → Status
  | .stepStarted, _ => .inProgress
  | .stepSucceeded, _ => .successful
  | .stepSkipped, _ => .skipped
  | .stepFailed, _ => .failed
  | .stepInterrupted, _ => .failed
  | _, status => status

/-- **The status that labels denote for a step**: the one that its last label leaves it in, and
without a label the one it had. -/
def Step.denoted (labels : List Label) (st : Step) : Status :=
  match lastEvent labels st.key with
  | some event => event.leaves st.status
  | none => st.status

/-- The status of a step after one more label. -/
lemma Step.denoted_concat (labels : List Label) (label : Label) (st : Step) :
    st.denoted (labels ++ [label]) =
      if label.step = some st.key then label.event.leaves st.status else st.denoted labels := by
  unfold Step.denoted
  rw [lastEvent_concat]
  by_cases h : label.step = some st.key
  · rw [if_pos h, if_pos h]
  · rw [if_neg h, if_neg h]

/-- The status of a step after one more attempt. -/
lemma Step.denoted_attempt (labels : List Label) (n : ℕ) (a : Attempt) (st : Step) :
    st.denoted (labels ++ a.labels n) =
      if a.key = st.key then a.ending.status else st.denoted labels := by
  have hlabels : labels ++ a.labels n = labels ++ [⟨.stepStarted, some a.key, n⟩] ++
      [⟨a.ending.event, some a.key, n⟩] := by
    simp [Attempt.labels]
  rw [hlabels, Step.denoted_concat, Step.denoted_concat]
  by_cases h : a.key = st.key
  · rw [if_pos (congrArg some h), if_pos h]
    cases a.ending <;> rfl
  · have hne : some a.key ≠ some st.key := fun heq => h (Option.some.inj heq)
    rw [if_neg hne, if_neg hne, if_neg h]

/-- The status of a step after skips. -/
lemma Step.denoted_skips (labels : List Label) (n : ℕ) (keys : List StepKey) (st : Step) :
    st.denoted (labels ++ keys.map fun key => ⟨.stepSkipped, some key, n⟩) =
      if st.key ∈ keys then .skipped else st.denoted labels := by
  induction keys using List.reverseRecOn with
  | nil => simp
  | append_singleton keys key ih =>
    rw [List.map_append, List.map_singleton, ← List.append_assoc, Step.denoted_concat, ih]
    by_cases h : key = st.key
    · rw [if_pos (congrArg some h), if_pos (by simp [h])]
      rfl
    · rw [if_neg fun heq => h (Option.some.inj heq)]
      simp [Ne.symm h]

/-- A step without a label keeps its status. -/
lemma Step.denoted_of_unlabelled {labels : List Label} {st : Step}
    (h : ∀ label ∈ labels, label.step ≠ some st.key) : st.denoted labels = st.status := by
  have hnone : lastEvent labels st.key = none := by
    rw [lastEvent, List.filter_eq_nil_iff.mpr fun label hlabel => by simpa using h label hlabel]
    rfl
  rw [Step.denoted, hnone]

/-- The label of a step in a pass: it is about one of the steps of the pass, and what it leaves the
step in does not depend on the status that it had. -/
lemma Pass.label_of_mem {p : Pass} {n : ℕ} {label : Label} {key : StepKey}
    (hlabel : label ∈ p.labels n) (hstep : label.step = some key) : key ∈ p.keys ∧
      ∀ status status', label.event.leaves status = label.event.leaves status' := by
  rcases List.mem_append.mp hlabel with hattempt | hskip
  · obtain ⟨a, ha, hmem⟩ := List.mem_flatMap.mp hattempt
    rw [Attempt.labels, List.mem_pair] at hmem
    have hkey : a.key = key := by
      rcases hmem with rfl | rfl <;> exact Option.some.inj hstep
    refine ⟨List.mem_append_left _ (hkey ▸ List.mem_map_of_mem ha), fun _ _ => ?_⟩
    rcases hmem with rfl | rfl
    · rfl
    · cases a.ending <;> rfl
  · obtain ⟨key', hkey', rfl⟩ := List.mem_map.mp hskip
    exact ⟨List.mem_append_right _ (Option.some.inj hstep ▸ hkey'), fun _ _ => rfl⟩

/-- Every step of a pass has a label. -/
lemma Pass.exists_label {p : Pass} {key : StepKey} (hkey : key ∈ p.keys) (n : ℕ) :
    ∃ label ∈ p.labels n, label.step = some key := by
  rcases List.mem_append.mp hkey with hattempt | hskip
  · obtain ⟨a, ha, rfl⟩ := List.mem_map.mp hattempt
    exact ⟨⟨.stepStarted, some a.key, n⟩,
      List.mem_append_left _ (List.mem_flatMap.mpr ⟨a, ha, by simp [Attempt.labels]⟩), rfl⟩
  · exact ⟨⟨.stepSkipped, some key, n⟩, List.mem_append_right _ (List.mem_map_of_mem hskip), rfl⟩

/-- The labels of steps in a run are those of its passes. -/
lemma mem_runLabels {n : ℕ} {passes : List Pass} {label : Label} {key : StepKey}
    (hstep : label.step = some key) : label ∈ runLabels n passes ↔
      ∃ p i, (p, i) ∈ passes.zipIdx ∧ label ∈ p.labels (n + i) := by
  have hnot : ∀ event m, label ≠ ⟨event, none, m⟩ := by
    rintro event m rfl
    cases hstep
  have hscheduled : ∀ i, label ∉ (if i = 0 then [] else
      [(⟨.retryScheduled, none, n + i⟩ : Label)]) := by
    intro i
    split <;> simp [hnot]
  simp [runLabels, passesLabels, hnot, hscheduled]

/-- A step has a label in a run exactly when it is in one of the passes. -/
lemma exists_label_iff {n : ℕ} {passes : List Pass} {key : StepKey} :
    (∃ label ∈ runLabels n passes, label.step = some key) ↔ ∃ p ∈ passes, key ∈ p.keys := by
  constructor
  · rintro ⟨label, hlabel, hstep⟩
    obtain ⟨p, i, hp, hmem⟩ := (mem_runLabels hstep).mp hlabel
    exact ⟨p, List.fst_mem_of_mem_zipIdx hp, (p.label_of_mem hmem hstep).1⟩
  · rintro ⟨p, hp, hkey⟩
    obtain ⟨i, hi, rfl⟩ := List.mem_iff_getElem.mp hp
    obtain ⟨label, hlabel, hstep⟩ := Pass.exists_label hkey (n + i)
    refine ⟨label, (mem_runLabels hstep).mpr ⟨_, i, ?_, hlabel⟩, hstep⟩
    exact List.mem_zipIdx_iff_getElem?.mpr (by simp)

/-- What the label of a step leaves it in does not depend on the status that it had. -/
lemma leaves_of_mem_runLabels {n : ℕ} {passes : List Pass} {label : Label} {key : StepKey}
    (hlabel : label ∈ runLabels n passes) (hstep : label.step = some key)
    (status status' : Status) :
    label.event.leaves status = label.event.leaves status' := by
  obtain ⟨p, i, -, hmem⟩ := (mem_runLabels hstep).mp hlabel
  exact (p.label_of_mem hmem hstep).2 status status'

/-- A step of a pass is left in the status that its last label says, whatever status it had. -/
lemma Step.denoted_of_mem_keys {n : ℕ} {passes : List Pass} {st st' : Step}
    (hkey : st'.key = st.key) (h : ∃ p ∈ passes, st.key ∈ p.keys) :
    st'.denoted (runLabels n passes) = st.denoted (runLabels n passes) := by
  obtain ⟨label, hlabel, hstep⟩ := exists_label_iff.mpr h
  have hne : ((runLabels n passes).filter fun label => label.step = some st.key) ≠ [] :=
    List.ne_nil_of_mem (List.mem_filter.mpr ⟨hlabel, by simpa using hstep⟩)
  have hlast := List.getLast_mem hne
  rw [List.mem_filter] at hlast
  unfold Step.denoted
  rw [hkey, lastEvent, List.getLast?_eq_some_getLast hne]
  exact leaves_of_mem_runLabels hlast.1 (by simpa using hlast.2) _ _

/-- A step of no pass keeps its status. -/
lemma Step.denoted_of_not_mem_keys {n : ℕ} {passes : List Pass} {st : Step}
    (h : ∀ p ∈ passes, st.key ∉ p.keys) : st.denoted (runLabels n passes) = st.status :=
  Step.denoted_of_unlabelled fun label hlabel hstep => by
    obtain ⟨p, hp, hkey⟩ := exists_label_iff.mp ⟨label, hlabel, hstep⟩
    exact h p hp hkey
