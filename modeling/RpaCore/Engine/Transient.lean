import Mathlib.Algebra.Ring.Nat
import RpaCore.Engine.History

set_option relaxedAutoImplicit false
set_option autoImplicit false

/-!
# Transient failures

A step that fails technically a number of times and then behaves in its own way is attempted again
by the passes of the run until it does. Laid one after the other, the attempts of all passes are
those of one walk through the work, in which every step is attempted until its failures are used
up. The outcome of the walk does not depend on how many failures there were.

## Main definitions

* `Script` — how often each step fails technically, and how it behaves then.
* `Script.play`, `Script.skipped`, `Script.recoveries` — the walk through the work: its attempts,
  the steps that a halting failure skips, and how many attempts failed technically.
* `finalOutcomes` — the last outcome of each step, in their order.

## Main results

* `Script.schedule_played` — the attempts of a schedule are those of the walk.
* `Engine.recovered_transparent_iff` — a run with recovered failures ends like the run without
  them, exactly when none of the delays before its retries overflows.
-/

/-! ## The events of a run -/

/-- The step events among labels. -/
def stepEvents (labels : List Label) : List (StepKey × HistoryEvent) :=
  labels.filterMap fun label => label.step.map fun key => (key, label.event)

/-- The last event of each step, in their order. -/
def finalEvents : List (StepKey × HistoryEvent) → List (StepKey × HistoryEvent)
  | [] => []
  | x :: rest => if rest.any fun y => y.1 = x.1 then finalEvents rest else x :: finalEvents rest

/-- **The final outcomes of the steps** with entries among the labels, in their order. -/
def finalOutcomes (labels : List Label) : List (StepKey × HistoryEvent) :=
  finalEvents (stepEvents labels)

/-- The events of an attempt. -/
def Attempt.events (a : Attempt) : List (StepKey × HistoryEvent) :=
  [(a.key, .stepStarted), (a.key, a.ending.event)]

/-- The events of a pass. -/
def Pass.events (p : Pass) : List (StepKey × HistoryEvent) :=
  p.attempts.flatMap Attempt.events ++ p.skips.map fun key => (key, .stepSkipped)

@[simp] lemma stepEvents_append (l l' : List Label) :
    stepEvents (l ++ l') = stepEvents l ++ stepEvents l' := List.filterMap_append

/-- The step events of the labels of a pass. -/
lemma stepEvents_labels (n : ℕ) (p : Pass) : stepEvents (p.labels n) = p.events := by
  have hattempts : ∀ attempts : List Attempt,
      stepEvents (attempts.flatMap (Attempt.labels n)) = attempts.flatMap Attempt.events := by
    intro attempts
    induction attempts with
    | nil => rfl
    | cons a attempts ih =>
      rw [List.flatMap_cons, stepEvents_append, ih]
      rfl
  rw [Pass.labels, stepEvents_append, hattempts, Pass.events]
  congr 1
  simp [stepEvents, List.filterMap_map]

/-- The step events of a run are those of its passes. -/
lemma stepEvents_runLabels (n : ℕ) (passes : List Pass) :
    stepEvents (runLabels n passes) = passes.flatMap Pass.events := by
  have hpasses : stepEvents (passesLabels n passes) = passes.flatMap Pass.events := by
    induction passes using List.reverseRecOn with
    | nil => rfl
    | append_singleton passes p ih =>
      rw [passesLabels_concat, stepEvents_append, stepEvents_append, ih, stepEvents_labels,
        List.flatMap_append, List.flatMap_singleton]
      split
      · rfl
      · rfl
  rw [runLabels, stepEvents_append, ← hpasses]
  simp [stepEvents]

/-- A block of events of one step has one final event. -/
lemma finalEvents_block {key : StepKey} {block rest : List (StepKey × HistoryEvent)}
    (hblock : ∀ x ∈ block, x.1 = key) (event : HistoryEvent) (hrest : ∀ x ∈ rest, x.1 ≠ key) :
    finalEvents (block ++ (key, event) :: rest) = (key, event) :: finalEvents rest := by
  induction block with
  | nil =>
    have hnone : (rest.any fun y => y.1 = key) = false := by simpa using hrest
    rw [List.nil_append, finalEvents, hnone]
    simp
  | cons x block ih =>
    rw [List.forall_mem_cons] at hblock
    have hlater : ((block ++ (key, event) :: rest).any fun y => y.1 = x.1) = true := by
      simp [hblock.1]
    rw [List.cons_append, finalEvents, if_pos hlater, ih hblock.2]

/-- Events of different steps are all final. -/
lemma finalEvents_of_nodup {events : List (StepKey × HistoryEvent)}
    (h : (events.map Prod.fst).Nodup) : finalEvents events = events := by
  induction events with
  | nil => rfl
  | cons x rest ih =>
    rw [List.map_cons, List.nodup_cons] at h
    have hnone : (rest.any fun y => y.1 = x.1) = false := by
      simp only [List.any_eq_false, decide_eq_true_eq]
      exact fun y hy heq => h.1 (heq ▸ List.mem_map_of_mem hy)
    rw [finalEvents, hnone, ih h.2]
    simp

/-- The last event of a step is its final one. -/
lemma lastEvent_eq (labels : List Label) (key : StepKey) :
    lastEvent labels key = ((finalOutcomes labels).find? fun x => x.1 = key).map Prod.snd := by
  have hfilter : lastEvent labels key =
      ((stepEvents labels).filter fun x => x.1 = key).getLast?.map Prod.snd := by
    have hown : (stepEvents labels).filter (fun x => x.1 = key) =
        (labels.filter fun label => label.step = some key).map fun label => (key, label.event) := by
      induction labels with
      | nil => rfl
      | cons label labels ih =>
        rw [stepEvents] at ih ⊢
        rcases hstep : label.step with _ | key'
        · rw [List.filterMap_cons_none (by simp [hstep]), ih,
            List.filter_cons_of_neg (by simp [hstep])]
        · rw [List.filterMap_cons_some (by simp [hstep]; rfl)]
          by_cases hkey : key' = key
          · simp [hstep, hkey, ih]
          · simp [hstep, hkey, ih]
    rw [hown, List.getLast?_map, Option.map_map, lastEvent]
    rfl
  rw [hfilter, finalOutcomes]
  congr 1
  generalize stepEvents labels = events
  induction events with
  | nil => rfl
  | cons x rest ih =>
    rw [finalEvents]
    by_cases hlater : (rest.any fun y => y.1 = x.1) = true
    · rw [if_pos hlater, ← ih]
      by_cases hx : x.1 = key
      · obtain ⟨y, hy, heq⟩ := List.any_eq_true.mp hlater
        have hmem : y ∈ rest.filter fun x => x.1 = key :=
          List.mem_filter.mpr ⟨hy, by simpa [hx] using heq⟩
        obtain ⟨z, hz⟩ := Option.isSome_iff_exists.mp
          (List.getLast?_isSome.mpr (List.ne_nil_of_mem hmem))
        rw [List.filter_cons_of_pos (by simpa using hx), List.getLast?_cons, hz]
        rfl
      · rw [List.filter_cons_of_neg (by simpa using hx)]
    · rw [if_neg hlater]
      by_cases hx : x.1 = key
      · have hnone : rest.filter (fun x => x.1 = key) = [] :=
          List.filter_eq_nil_iff.mpr fun y hy heq =>
            hlater (List.any_eq_true.mpr ⟨y, hy, by simpa [hx] using heq⟩)
        rw [List.filter_cons_of_pos (by simpa using hx), hnone,
          List.find?_cons_of_pos (by simpa using hx)]
        rfl
      · rw [List.filter_cons_of_neg (by simpa using hx),
          List.find?_cons_of_neg (by simpa using hx), ih]

/-! ## Scripts -/

/-- How many attempts at a step there are. -/
def attemptsAt (attempts : List Attempt) (order : ℤ) : ℕ :=
  attempts.countP fun a => a.key.2 = order

/-- How many attempts failed technically. -/
def systemFailures (attempts : List Attempt) : ℕ :=
  attempts.countP fun a => a.ending = .systemFailed

/-- Attempts at other steps do not count. -/
lemma attemptsAt_append {l attempts : List Attempt} {order : ℤ}
    (h : order ∉ attempts.map fun a => a.key.2) :
    attemptsAt (l ++ attempts) order = attemptsAt l order := by
  have hnone : attempts.countP (fun a => a.key.2 = order) = 0 := by
    refine List.countP_eq_zero.mpr fun a ha heq => h ?_
    rw [← of_decide_eq_true heq]
    exact List.mem_map_of_mem ha
  rw [attemptsAt, List.countP_append, hnone, Nat.add_zero]
  rfl

/-- One more attempt. -/
lemma attemptsAt_concat (l : List Attempt) (a : Attempt) (order : ℤ) :
    attemptsAt (l ++ [a]) order = attemptsAt l order + if a.key.2 = order then 1 else 0 := by
  rw [attemptsAt, List.countP_append, List.countP_cons]
  simp [attemptsAt]

/-- The technical failures of attempts laid one after the other. -/
@[simp] lemma systemFailures_append (l l' : List Attempt) :
    systemFailures (l ++ l') = systemFailures l + systemFailures l' := List.countP_append

/-- The technical failures with one attempt before. -/
@[simp] lemma systemFailures_cons (a : Attempt) (l : List Attempt) :
    systemFailures (a :: l) =
      systemFailures l + if a.ending = .systemFailed then 1 else 0 := by
  rw [systemFailures, List.countP_cons]
  simp [systemFailures]

/-- Nothing attempted, nothing failed. -/
@[simp] lemma systemFailures_nil : systemFailures [] = 0 := rfl

/-- Attempts that go on do not fail technically. -/
lemma systemFailures_goesOn {attempts : List Attempt}
    (h : ∀ a ∈ attempts, a.ending.stops = false) : systemFailures attempts = 0 := by
  refine List.countP_eq_zero.mpr fun a ha heq => ?_
  have hstops := h a ha
  rw [of_decide_eq_true heq] at hstops
  cases hstops

/-- **The behaviour of the steps** in a run, by their execution orders: each step fails technically
a number of times, and then behaves in its own way. -/
structure Script where
  failures : ℤ → ℕ
  behaves : ℤ → Ending
  recovers : ∀ order, behaves order ≠ .systemFailed

namespace Script

variable (sc : Script)

/-- The ending of an attempt at a step after a number of attempts at it. -/
def ending (order : ℤ) (earlier : ℕ) : Ending :=
  if earlier < sc.failures order then .systemFailed else sc.behaves order

/-- The same behaviour without the technical failures. -/
def steady : Script := { sc with failures := fun _ => 0 }

/-- The attempts are those of the script. -/
def Plays (attempts : List Attempt) : Prop :=
  ∀ before a after, attempts = before ++ a :: after →
    a.ending = sc.ending a.key.2 (attemptsAt before a.key.2)

/-- **The walk through the work**, when each step has been attempted a number of times before: each
step is attempted until its failures are used up, and the first halting failure ends the walk. -/
def play (earlier : ℤ → ℕ) : List StepKey → List Attempt
  | [] => []
  | key :: rest =>
    List.replicate (sc.failures key.2 - earlier key.2) ⟨key, .systemFailed⟩ ++
      ⟨key, sc.behaves key.2⟩ :: if (sc.behaves key.2).stops then [] else play earlier rest

/-- The steps that the halting failure of the walk skips. -/
def skipped : List StepKey → List StepKey
  | [] => []
  | key :: rest => if (sc.behaves key.2).stops then rest else skipped rest

/-- How many attempts of the walk fail technically. -/
def recoveries : List StepKey → ℕ
  | [] => 0
  | key :: rest => sc.failures key.2 + if (sc.behaves key.2).stops then 0 else recoveries rest

/-- The walk recovers from the failures of the steps it attempts. -/
lemma recoveries_le (work : List StepKey) :
    sc.recoveries work ≤ (work.map fun key => sc.failures key.2).sum := by
  induction work with
  | nil => exact le_refl 0
  | cons key rest ih =>
    rw [recoveries, List.map_cons, List.sum_cons]
    split
    · omega
    · omega

/-- Without technical failures there is nothing to recover from. -/
@[simp] lemma recoveries_steady (work : List StepKey) : sc.steady.recoveries work = 0 := by
  induction work with
  | nil => rfl
  | cons key rest ih =>
    rw [recoveries, ih, ite_self]
    rfl

/-- The technical failures of the walk. -/
lemma systemFailures_play (work : List StepKey) :
    systemFailures (sc.play (fun _ => 0) work) = sc.recoveries work := by
  induction work with
  | nil => rfl
  | cons key rest ih =>
    have hfailed : systemFailures (List.replicate (sc.failures key.2) ⟨key, .systemFailed⟩) =
        sc.failures key.2 := by
      simp [systemFailures, List.countP_replicate]
    rw [play, recoveries, systemFailures_append, systemFailures_cons, Nat.sub_zero, hfailed,
      if_neg (sc.recovers key.2)]
    split
    · rfl
    · rw [ih, Nat.add_zero]

variable {sc}

/-- The walk depends on the earlier attempts at its own steps. -/
lemma play_congr {c d : ℤ → ℕ} {work : List StepKey} (h : ∀ key ∈ work, c key.2 = d key.2) :
    sc.play c work = sc.play d work := by
  induction work with
  | nil => rfl
  | cons key rest ih =>
    rw [List.forall_mem_cons] at h
    rw [play, play, h.1, ih h.2]

/-- The attempts of a script up to one of them. -/
lemma Plays.left {l l' : List Attempt} (h : sc.Plays (l ++ l')) : sc.Plays l :=
  fun before a after heq => h before a (after ++ l') (by simp [heq])

/-- The last attempt of a script. -/
lemma Plays.last {l : List Attempt} {a : Attempt} (h : sc.Plays (l ++ [a])) :
    a.ending = sc.ending a.key.2 (attemptsAt l a.key.2) := h l a [] rfl

/-- An attempt that does not fail technically shows the behaviour of its step. -/
lemma ending_settled {order : ℤ} {n : ℕ} (h : sc.ending order n ≠ .systemFailed) :
    sc.failures order ≤ n ∧ sc.ending order n = sc.behaves order := by
  unfold ending at h ⊢
  split at h
  · exact absurd rfl h
  · next hn => exact ⟨by omega, if_neg hn⟩

/-- A technical failure is one that the script still has. -/
lemma ending_failed {order : ℤ} {n : ℕ} (h : sc.ending order n = .systemFailed) :
    n < sc.failures order := by
  unfold ending at h
  split at h
  · next hn => exact hn
  · exact absurd h (sc.recovers order)

/-! ## The attempts of a schedule -/

/-- A step that behaves in its own way at once. -/
lemma play_settled {c : ℤ → ℕ} {key : StepKey} (h : sc.failures key.2 ≤ c key.2)
    (rest : List StepKey) : sc.play c (key :: rest) =
      ⟨key, sc.behaves key.2⟩ :: if (sc.behaves key.2).stops then [] else sc.play c rest := by
  rw [play, Nat.sub_eq_zero_of_le h, List.replicate_zero, List.nil_append]

/-- A pass that goes on follows the walk. -/
lemma play_goesOn {l attempts : List Attempt} (hplays : sc.Plays (l ++ attempts))
    (hgo : ∀ a ∈ attempts, a.ending.stops = false)
    (hdistinct : (attempts.map fun a => a.key.2).Nodup) (rest : List StepKey) :
    sc.play (attemptsAt l) (attempts.map Attempt.key ++ rest) =
        attempts ++ sc.play (attemptsAt l) rest ∧
      sc.skipped (attempts.map Attempt.key ++ rest) = sc.skipped rest := by
  induction attempts using List.reverseRecOn generalizing rest with
  | nil => exact ⟨rfl, rfl⟩
  | append_singleton attempts a ih =>
    rw [← List.append_assoc] at hplays
    rw [List.map_append, List.nodup_append] at hdistinct
    have hgoes := hgo a (by simp)
    have hahead : attemptsAt (l ++ attempts) a.key.2 = attemptsAt l a.key.2 :=
      attemptsAt_append fun hmem => hdistinct.2.2 _ hmem _ (by simp) rfl
    have hending := hplays.last
    rw [hahead] at hending
    have hsettled : sc.ending a.key.2 (attemptsAt l a.key.2) ≠ .systemFailed := by
      intro h
      rw [hending, h] at hgoes
      cases hgoes
    obtain ⟨hcount, hbehaves⟩ := ending_settled hsettled
    have hown : (⟨a.key, sc.behaves a.key.2⟩ : Attempt) = a := by
      rw [← hbehaves, ← hending]
    have hstops : (sc.behaves a.key.2).stops = false := by
      rw [← hbehaves, ← hending, hgoes]
    obtain ⟨hplay, hskipped⟩ := ih hplays.left (fun b hb => hgo b (by simp [hb])) hdistinct.1
      (a.key :: rest)
    constructor
    · rw [List.map_append, List.map_singleton, List.append_assoc, List.singleton_append, hplay,
        play_settled hcount, hown, hstops]
      simp
    · rw [List.map_append, List.map_singleton, List.append_assoc, List.singleton_append, hskipped,
        skipped, hstops]
      simp

/-- A halting failure ends the walk. -/
lemma play_halted {c : ℤ → ℕ} {key : StepKey} {halts : Bool}
    (h : .businessFailed halts = sc.ending key.2 (c key.2)) (hhalts : halts = true)
    (rest : List StepKey) : sc.play c (key :: rest) = [⟨key, .businessFailed true⟩] ∧
      sc.skipped (key :: rest) = rest := by
  subst hhalts
  have hsettled : sc.ending key.2 (c key.2) ≠ .systemFailed := by
    rw [← h]
    simp
  obtain ⟨hcount, hbehaves⟩ := ending_settled hsettled
  rw [play_settled hcount, skipped, ← hbehaves, ← h]
  exact ⟨rfl, rfl⟩

/-- A technical failure is the next attempt of the walk. -/
lemma play_failed {c d : ℤ → ℕ} {key : StepKey} {rest : List StepKey}
    (h : .systemFailed = sc.ending key.2 (c key.2)) (hown : d key.2 = c key.2 + 1)
    (hrest : ∀ key' ∈ rest, d key'.2 = c key'.2) :
    sc.play c (key :: rest) = ⟨key, .systemFailed⟩ :: sc.play d (key :: rest) := by
  have hcount := ending_failed h.symm
  have hleft : sc.failures key.2 - c key.2 = (sc.failures key.2 - d key.2) + 1 := by omega
  rw [play, play, hleft, List.replicate_succ, play_congr hrest]
  rfl

/-- What the attempts of a schedule are: those of the walk so far, with one pass for every
technical failure while work is left. -/
structure Played (work : List StepKey) (passes : List Pass) (left : List StepKey) : Prop where
  walk : passes.flatMap Pass.attempts ++
    sc.play (attemptsAt (passes.flatMap Pass.attempts)) left = sc.play (fun _ => 0) work
  ongoing : (passes ≠ [] → left ≠ []) →
    systemFailures (passes.flatMap Pass.attempts) = passes.length ∧
      passes.flatMap Pass.events = (passes.flatMap Pass.attempts).flatMap Attempt.events ∧
      sc.skipped left = sc.skipped work
  ended : passes ≠ [] → left = [] →
    systemFailures (passes.flatMap Pass.attempts) + 1 = passes.length ∧
      passes.flatMap Pass.events = (passes.flatMap Pass.attempts).flatMap Attempt.events ++
        (sc.skipped work).map fun key => (key, .stepSkipped)

/-- **The attempts of a schedule are those of the walk**, when its attempts follow the script.

**Proof sketch.** Induction on the passes. A pass attempts steps that are settled; then the work is
done, or a halting failure ends the walk, or the next technical failure of the walk ends the
pass. -/
theorem schedule_played {work left : List StepKey} {passes : List Pass}
    (h : Schedule work passes left) (hdistinct : (work.map Prod.snd).Nodup)
    (hplays : sc.Plays (passes.flatMap Pass.attempts)) : sc.Played work passes left := by
  induction h with
  | start => exact ⟨rfl, fun _ => ⟨rfl, rfl, rfl⟩, fun h => absurd rfl h⟩
  | @pass passes before left p h retried covers ih =>
    have hsuffix := h.suffix
    rw [List.flatMap_append, List.flatMap_singleton] at hplays
    obtain ⟨hwalk, hongoing, -⟩ := ih hplays.left
    obtain ⟨hfailures, hevents, hskipped⟩ := hongoing retried
    have hbefore : (before.map Prod.snd).Nodup := hdistinct.sublist (hsuffix.sublist.map _)
    generalize hl : passes.flatMap Pass.attempts = l at hplays hwalk hfailures hevents
    cases covers with
    | all attempts goesOn =>
      rw [List.map_map] at hbefore
      obtain ⟨hplay, hskip⟩ := play_goesOn hplays goesOn hbefore []
      rw [List.append_nil] at hplay hskip
      refine ⟨?_, fun h => absurd rfl (h (by simp)), fun _ _ => ?_⟩
      · rw [List.flatMap_append, List.flatMap_singleton, hl, ← hwalk, hplay]
        simp [play]
      · rw [List.flatMap_append, List.flatMap_singleton, hl, List.flatMap_append, hevents,
          ← hskipped, hskip, systemFailures_append, systemFailures_goesOn goesOn, hfailures]
        simp [skipped, Pass.events]
    | halted attempts key skips goesOn =>
      rw [List.map_append, List.map_map, List.map_cons, List.nodup_append] at hbefore
      rw [← List.append_assoc] at hplays
      obtain ⟨hplay, hskip⟩ := play_goesOn hplays.left goesOn hbefore.1 (key :: skips)
      have hlast := hplays.last
      rw [attemptsAt_append fun hmem => hbefore.2.2 _ hmem _ List.mem_cons_self rfl] at hlast
      obtain ⟨hhalts, hrest⟩ := play_halted hlast rfl skips
      refine ⟨?_, fun h => absurd rfl (h (by simp)), fun _ _ => ?_⟩
      · rw [List.flatMap_append, List.flatMap_singleton, hl, ← hwalk, hplay, hhalts]
        simp [play]
      · rw [List.flatMap_append, List.flatMap_singleton, hl, List.flatMap_append, hevents,
          ← hskipped, hskip, hrest, systemFailures_append, systemFailures_append,
          systemFailures_goesOn goesOn, hfailures]
        simp [Pass.events]
    | failed attempts key rest goesOn =>
      rw [List.map_append, List.map_map, List.map_cons, List.nodup_append] at hbefore
      rw [← List.append_assoc] at hplays
      obtain ⟨hplay, hskip⟩ := play_goesOn hplays.left goesOn hbefore.1 (key :: rest)
      have hlast := hplays.last
      have hnew : key.2 ∉ attempts.map fun a => a.key.2 :=
        fun hmem => hbefore.2.2 _ hmem _ List.mem_cons_self rfl
      rw [attemptsAt_append hnew] at hlast
      have hfailed : sc.play (attemptsAt l) (key :: rest) = ⟨key, .systemFailed⟩ ::
          sc.play (attemptsAt (l ++ attempts ++ [⟨key, .systemFailed⟩])) (key :: rest) := by
        refine play_failed hlast ?_ fun key' hkey' => ?_
        · rw [attemptsAt_concat, attemptsAt_append hnew, if_pos rfl]
        · have hmem := List.mem_cons_of_mem key.2 (List.mem_map_of_mem (f := Prod.snd) hkey')
          have hother : key.2 ≠ key'.2 := fun heq =>
            (List.nodup_cons.mp hbefore.2.1).1 (heq ▸ List.mem_map_of_mem hkey')
          rw [attemptsAt_concat, attemptsAt_append fun h => hbefore.2.2 _ h _ hmem rfl,
            if_neg hother, Nat.add_zero]
      refine ⟨?_, fun _ => ⟨?_, ?_, ?_⟩, fun _ h => absurd h (by simp)⟩
      · rw [List.flatMap_append, List.flatMap_singleton, hl, ← hwalk, hplay, hfailed]
        simp
      · rw [List.flatMap_append, List.flatMap_singleton, hl, systemFailures_append,
          systemFailures_append, systemFailures_goesOn goesOn, hfailures]
        simp
      · rw [List.flatMap_append, List.flatMap_singleton, hevents, List.flatMap_append,
          List.flatMap_singleton, hl]
        simp [Pass.events]
      · rw [← hskipped, hskip]

/-! ## The outcome of the walk -/

/-- **The outcome of the walk**: how each of its steps behaves, then the skipped steps. -/
def outcome (sc : Script) : List StepKey → List (StepKey × HistoryEvent)
  | [] => []
  | key :: rest =>
    (key, (sc.behaves key.2).event) ::
      if (sc.behaves key.2).stops then rest.map fun key => (key, .stepSkipped) else outcome sc rest

/-- The outcome does not depend on the technical failures. -/
lemma outcome_steady (work : List StepKey) : sc.steady.outcome work = sc.outcome work := by
  induction work with
  | nil => rfl
  | cons key rest ih =>
    rw [outcome, outcome, ih]
    rfl

/-- The walk attempts the work. -/
lemma key_of_mem_play {c : ℤ → ℕ} {work : List StepKey} {a : Attempt} (h : a ∈ sc.play c work) :
    a.key ∈ work := by
  induction work with
  | nil => cases h
  | cons key rest ih =>
    rw [play, List.mem_append, List.mem_replicate, List.mem_cons] at h
    rcases h with ⟨-, rfl⟩ | rfl | h
    · exact List.mem_cons_self
    · exact List.mem_cons_self
    · split at h
      · cases h
      · exact List.mem_cons_of_mem _ (ih h)

/-- The walk skips steps of the work. -/
lemma mem_of_mem_skipped {work : List StepKey} {key : StepKey} (h : key ∈ sc.skipped work) :
    key ∈ work := by
  induction work with
  | nil => cases h
  | cons key' rest ih =>
    rw [skipped] at h
    split at h
    · exact List.mem_cons_of_mem _ h
    · exact List.mem_cons_of_mem _ (ih h)

/-- The events of the walk. -/
def events (sc : Script) (work : List StepKey) : List (StepKey × HistoryEvent) :=
  (sc.play (fun _ => 0) work).flatMap Attempt.events ++
    (sc.skipped work).map fun key => (key, .stepSkipped)

/-- The events of the walk are about its work. -/
lemma fst_of_mem_events {work : List StepKey} {x : StepKey × HistoryEvent}
    (h : x ∈ sc.events work) : x.1 ∈ work := by
  rcases List.mem_append.mp h with h | h
  · obtain ⟨a, ha, hx⟩ := List.mem_flatMap.mp h
    have hkey := key_of_mem_play ha
    rcases List.mem_pair.mp hx with rfl | rfl
    · exact hkey
    · exact hkey
  · obtain ⟨key, hkey, rfl⟩ := List.mem_map.mp h
    exact mem_of_mem_skipped hkey

/-- The events of the walk begin with those of its first step. -/
lemma events_cons (sc : Script) (key : StepKey) (rest : List StepKey) :
    ∃ block : List (StepKey × HistoryEvent), (∀ x ∈ block, x.1 = key) ∧
      sc.events (key :: rest) = block ++ (key, (sc.behaves key.2).event) ::
        if (sc.behaves key.2).stops then rest.map fun key => (key, .stepSkipped)
        else sc.events rest := by
  refine ⟨(List.replicate (sc.failures key.2) (⟨key, .systemFailed⟩ : Attempt)).flatMap
    Attempt.events ++ [(key, .stepStarted)], fun x hx => ?_, ?_⟩
  · rcases List.mem_append.mp hx with hx | hx
    · obtain ⟨a, ha, hx⟩ := List.mem_flatMap.mp hx
      rw [List.eq_of_mem_replicate ha] at hx
      rcases List.mem_pair.mp hx with rfl | rfl
      · rfl
      · rfl
    · rw [List.mem_singleton.mp hx]
  · split
    · next hstops => simp [events, play, skipped, hstops, Attempt.events]
    · next hstops => simp [events, play, skipped, hstops, Attempt.events]

/-- **The final events of the walk are its outcome.** -/
theorem finalEvents_events {work : List StepKey} (hdistinct : work.Nodup) :
    finalEvents (sc.events work) = sc.outcome work := by
  induction work with
  | nil => rfl
  | cons key rest ih =>
    obtain ⟨hnew, hrest⟩ := List.nodup_cons.mp hdistinct
    obtain ⟨block, hblock, hevents⟩ := sc.events_cons key rest
    rw [hevents, outcome]
    split
    · have hskips : ((rest.map fun key => (key, HistoryEvent.stepSkipped)).map Prod.fst).Nodup := by
        rw [List.map_map]
        exact (List.map_id' rest).symm ▸ hrest
      rw [finalEvents_block hblock, finalEvents_of_nodup hskips]
      rintro x hx rfl
      obtain ⟨key', hkey', rfl⟩ := List.mem_map.mp hx
      exact hnew hkey'
    · rw [finalEvents_block hblock, ih hrest]
      exact fun x hx heq => hnew (heq ▸ fst_of_mem_events hx)

end Script

/-! ## Runs that follow a script -/

/-- **The run follows the script**: its step bodies end as the script says, and every other call is
answered so that the run goes on. -/
structure Script.Followed (sc : Script) (checkpoints : Bool) (t : EngineTrace) : Prop where
  calm : Calm checkpoints t
  endings : ∀ t₁ st tx r t₂, t = t₁ ++ ⟨.execute st tx, r⟩ :: t₂ →
    r.ending = some (sc.ending st.executionOrder (attemptsAt (attemptsOf t₁) st.executionOrder))

namespace Script.Followed

variable {sc : Script} {checkpoints : Bool} {t : EngineTrace}

/-- The attempts of such a run are those of the script. -/
lemma plays (h : sc.Followed checkpoints t) : sc.Plays (attemptsOf t) := by
  intro before a after heq
  obtain ⟨t₁, t', rfl, hbefore, hrest⟩ := List.filterMap_eq_append_iff.mp heq
  obtain ⟨calls, ev, t₂, rfl, hcalls, hev, -⟩ := List.filterMap_eq_cons_iff.mp hrest
  obtain ⟨_ | ⟨st, tx⟩ | _, r⟩ := ev
  · cases hev
  · have hattempts : attemptsOf (t₁ ++ calls) = before := by
      rw [attemptsOf, List.filterMap_append, hbefore, List.filterMap_eq_nil_iff.mpr hcalls,
        List.append_nil]
    have hending := h.endings (t₁ ++ calls) st tx r t₂ (by simp)
    rw [hattempts] at hending
    simp only [hending, Option.map_some, Option.some.injEq] at hev
    rw [← hev]
    rfl
  · cases hev

/-- Every call of such a run is answered in the ordinary way. -/
lemma ordinary (h : sc.Followed checkpoints t) : ∀ ev ∈ t, ev.op.Ordinary ev.res := by
  intro ev hev
  obtain ⟨_ | ⟨st, tx⟩ | _, r⟩ := ev
  · have hnone : r = none := h.calm _ hev
    intro err herr
    rw [hnone] at herr
    cases herr
  · obtain ⟨t₁, t₂, ht⟩ := List.append_of_mem hev
    change r.ending.isSome
    rw [h.endings t₁ st tx r t₂ ht]
    rfl
  · obtain ⟨path, hpath⟩ : ∃ path, r = .ok path := h.calm _ hev
    intro err herr
    rw [hpath] at herr
    cases herr

end Script.Followed

namespace Engine

variable {e : Engine} {ctx : RunContext} {tx : Transaction} {sc : Script}

/-- The labels of the entries that were appended. -/
def appendedLabels (tx final : Transaction) : List Label :=
  (final.history.drop tx.history.length).map HistoryEntry.label

/-- **What a run that returned leaves**, as far as the final outcomes of its steps decide it. -/
structure Concluded (tx : Transaction) (outcomes : List (StepKey × HistoryEvent))
    (final : Transaction) : Prop where
  outcomes : finalOutcomes (appendedLabels tx final) = outcomes
  steps : final.steps.map Step.status = tx.steps.map (Step.denoted (appendedLabels tx final))
  status : final.status = if final.steps.all Step.isComplete then .successful else .failed

/-- **Two runs end alike**: both return, with the same status of every step and of the transaction,
and with the same final outcomes in the same order. -/
structure EndsLike (tx : Transaction) (r r' : Except PyError Unit × EngineState) : Prop where
  returned : r.1 = .ok () ∧ r'.1 = .ok ()
  steps : r.2.tx.steps.map Step.status = r'.2.tx.steps.map Step.status
  status : r.2.tx.status = r'.2.tx.status
  outcomes : finalOutcomes (appendedLabels tx r.2.tx) = finalOutcomes (appendedLabels tx r'.2.tx)

/-- The labels of what was appended. -/
lemma appendedLabels_eq {labels : List Label} {final : Transaction}
    (h : tx.Appends labels final) : appendedLabels tx final = labels := by
  obtain ⟨entries, hhistory, hlabels, -⟩ := h
  rw [appendedLabels, hhistory, List.drop_left, hlabels]

/-- The statuses of all steps are those that the labels denote. -/
lemma map_status_eq {labels : List Label} {final : Transaction} (hw : tx.Wired)
    (hgrows : tx.Grows final) (h : tx.Reflects labels none final) :
    final.steps.map Step.status = tx.steps.map (Step.denoted labels) := by
  have hlength : final.steps.length = tx.steps.length := by
    simpa using congrArg List.length hgrows.keys
  refine List.ext_getElem (by simpa using hlength) fun i hi hi' => ?_
  rw [List.length_map] at hi hi'
  have hkey : (final.steps[i]).key = (tx.steps[i]).key := by
    have := congrArg (fun keys => keys[i]?) hgrows.keys
    simpa [hi, hi'] using this
  have horder : (final.steps[i]).executionOrder = (tx.steps[i]).executionOrder :=
    congrArg Prod.snd hkey
  rw [List.getElem_map, List.getElem_map]
  exact h _ _ _ (hw.stepAt (List.getElem_mem hi'))
    (horder ▸ (hgrows.wired hw).stepAt (List.getElem_mem hi)) (by simp)

/-- The final outcomes decide the rest of what a run leaves. -/
lemma Concluded.endsLike {outcomes : List (StepKey × HistoryEvent)}
    {r r' : Except PyError Unit × EngineState} (hr : r.1 = .ok ()) (hr' : r'.1 = .ok ())
    (h : Concluded tx outcomes r.2.tx) (h' : Concluded tx outcomes r'.2.tx) :
    EndsLike tx r r' := by
  have hdenoted : ∀ st, Step.denoted (appendedLabels tx r.2.tx) st =
      Step.denoted (appendedLabels tx r'.2.tx) st := by
    intro st
    unfold Step.denoted
    rw [lastEvent_eq, lastEvent_eq, h.outcomes, h'.outcomes]
  have hsteps : r.2.tx.steps.map Step.status = r'.2.tx.steps.map Step.status := by
    rw [h.steps, h'.steps]
    exact List.map_congr_left fun st _ => hdenoted st
  have hall : ∀ steps : List Step, steps.all Step.isComplete =
      (steps.map Step.status).all fun status => status = .successful || status = .skipped := by
    intro steps
    rw [List.all_map]
    rfl
  refine ⟨⟨hr, hr'⟩, hsteps, ?_, h.outcomes.trans h'.outcomes.symm⟩
  rw [h.status, h'.status, hall, hall, hsteps]

/-- The walk through the pending steps of a wired transaction. -/
lemma played_of_attempts {passes : List Pass} {left : List StepKey} {t : EngineTrace}
    {checkpoints : Bool} (hvalid : tx.Valid) (hfollows : sc.Followed checkpoints t)
    (hschedule : Schedule tx.pendingKeys passes left)
    (hattempts : attemptsOf t = passes.flatMap Pass.attempts) :
    sc.Played tx.pendingKeys passes left := by
  have hincreasing := hvalid.wired.pairwise_orderedKeys.sublist
    (List.filter_sublist (p := fun key => tx.pendingAt key.2))
  refine Script.schedule_played hschedule ?_ (hattempts ▸ hfollows.plays)
  exact List.pairwise_map.mpr (hincreasing.imp fun h => ne_of_lt h)

/-- While work is left there is one pass for each of some technical failures of the walk. -/
lemma passes_le_recoveries {passes : List Pass} {left : List StepKey}
    (h : sc.Played tx.pendingKeys passes left) (hleft : left ≠ []) :
    passes.length ≤ sc.recoveries tx.pendingKeys := by
  have hfailures := congrArg systemFailures h.walk
  rw [systemFailures_append, Script.systemFailures_play] at hfailures
  have hpasses := (h.ongoing fun _ => hleft).1
  omega

/-- A run that returned went through the whole walk. -/
lemma concluded_of_traced {passes : List Pass} {left : List StepKey} {final : Transaction}
    {t : EngineTrace} {checkpoints : Bool} (hvalid : tx.Valid)
    (hfollows : sc.Followed checkpoints t)
    (hbudget : tx.retryCount + (tx.pendingKeys.map fun key => sc.failures key.2).sum ≤
      e.maxRetries) (h : Traced e ctx.host tx passes left final t) :
    Concluded tx (sc.outcome tx.pendingKeys) final ∧
      ∀ i < sc.recoveries tx.pendingKeys, ¬ e.DelayOverflows ctx.host (tx.retryCount + i) := by
  have hplayed := played_of_attempts hvalid hfollows h.schedule h.attempts
  have hlength : passes.length ≠ 0 := fun hnil => h.nonempty (List.length_eq_zero_iff.mp hnil)
  have hleft : left = [] := by
    by_contra hleft
    have hpasses := passes_le_recoveries hplayed hleft
    have hspent := h.spent hleft
    have hrecoveries := sc.recoveries_le tx.pendingKeys
    omega
  subst hleft
  obtain ⟨hfailures, hevents⟩ := hplayed.ended h.nonempty rfl
  have hwalk := hplayed.walk
  rw [Script.play, List.append_nil] at hwalk
  rw [hwalk, Script.systemFailures_play] at hfailures
  have hdistinct : tx.pendingKeys.Nodup :=
    (hvalid.wired.pairwise_orderedKeys.imp fun {a b} h => by
      rintro rfl
      exact lt_irrefl _ h).sublist List.filter_sublist
  refine ⟨⟨?_, ?_, h.status⟩, fun i hi => h.slept i (by omega)⟩
  · rw [appendedLabels_eq h.appends, finalOutcomes, stepEvents_runLabels, hevents, hwalk]
    exact Script.finalEvents_events hdistinct
  · rw [appendedLabels_eq h.appends]
    exact map_status_eq hvalid.wired h.grows h.reflects

/-- **A run that follows a script** within its retries returns exactly when none of the delays
before its retries overflows, and then it has gone through the whole walk. -/
theorem run_followed (hopened : tx.Opened) (hadmitted : tx.Admitted)
    (env : List (Event EngineOp EngineOp.Res) → (op : EngineOp) → op.Res)
    (hbudget : tx.retryCount + (tx.pendingKeys.map fun key => sc.failures key.2).sum ≤
      e.maxRetries)
    (hfollows : sc.Followed ctx.hasCheckpoint ((e.run ctx tx).run env []).2) :
    (((e.run ctx tx).run env []).1.1 = .ok () ∧
      (∀ i < sc.recoveries tx.pendingKeys, ¬ e.DelayOverflows ctx.host (tx.retryCount + i)) ∧
      Concluded tx (sc.outcome tx.pendingKeys) ((e.run ctx tx).run env []).1.2.tx) ∨
    (((e.run ctx tx).run env []).1.1 ≠ .ok () ∧
      ∃ i < sc.recoveries tx.pendingKeys, e.DelayOverflows ctx.host (tx.retryCount + i)) := by
  have hrun := Prog.wp_run_honest env (M := ordinary) (g := []) (t := [])
    (u := ((e.run ctx tx).run env []).2) (wp_body_traced e ctx hopened hadmitted)
    rfl (honest_of_mem (fun ev hev _ => hfollows.ordinary ev hev) _)
  rw [List.nil_append, ordinary, replay_traceMonitor, List.nil_append] at hrun
  change Proc.post _ _ ((e.run ctx tx).run env []).1 _ at hrun
  generalize (e.run ctx tx).run env [] = r at hrun hfollows ⊢
  obtain ⟨⟨err | _, s⟩, t⟩ := r
  · refine Or.inr ⟨by simp, ?_⟩
    obtain ⟨passes, left, before, h, hleft, hdelay⟩ := hrun.delayed hfollows.calm
    have hplayed := played_of_attempts hadmitted.valid hfollows h.schedule h.logged.attempts
    have hpasses := passes_le_recoveries hplayed hleft
    have hcount := h.logged.retryCount
    have hlength : passes.length ≠ 0 := fun hnil => h.nonempty (List.length_eq_zero_iff.mp hnil)
    refine ⟨passes.length - 1, by omega, ?_⟩
    rwa [show tx.retryCount + (passes.length - 1) = before.tx.retryCount by omega]
  · obtain ⟨passes, left, h⟩ := hrun
    obtain ⟨hconcluded, hslept⟩ := concluded_of_traced hadmitted.valid hfollows hbudget h
    exact Or.inl ⟨rfl, hslept, hconcluded⟩

/-- **Recovered technical failures are transparent** exactly when none of the delays before the
retries overflows: then the run of the steps that fail technically, within its retries, ends like
the run of the same steps without these failures. The steps in question are those that the passes
of the run find `PENDING`.

**Proof sketch.** Both runs go through the walk of their script (`run_followed`), and the outcome of
the walk does not depend on the technical failures. -/
theorem recovered_transparent_iff (hgiven : tx.Given) (hadmitted : tx.Admitted)
    (env env₀ : List (Event EngineOp EngineOp.Res) → (op : EngineOp) → op.Res)
    (hbudget : tx.retryCount + (tx.reopened.pendingKeys.map fun key => sc.failures key.2).sum ≤
      e.maxRetries)
    (hfollows : sc.Followed ctx.hasCheckpoint ((e.run ctx tx).run env []).2)
    (hsteady : sc.steady.Followed ctx.hasCheckpoint ((e.run ctx tx).run env₀ []).2) :
    EndsLike tx ((e.run ctx tx).run env []).1 ((e.run ctx tx).run env₀ []).1 ↔
      ∀ i < sc.recoveries tx.reopened.pendingKeys,
        ¬ e.DelayOverflows ctx.host (tx.retryCount + i) := by
  rw [← run_reopened e ctx hadmitted] at hfollows hsteady ⊢
  have hbudget₀ : tx.retryCount +
      (tx.reopened.pendingKeys.map fun key => sc.steady.failures key.2).sum ≤ e.maxRetries := by
    have hnone : (tx.reopened.pendingKeys.map fun key => sc.steady.failures key.2).sum = 0 := by
      simp [Script.steady]
    omega
  have hreturned : ((e.run ctx tx.reopened).run env₀ []).1.1 = .ok () ∧
      Concluded tx.reopened (sc.outcome tx.reopened.pendingKeys)
        ((e.run ctx tx.reopened).run env₀ []).1.2.tx := by
    rcases run_followed hgiven.opened hadmitted.reopened env₀ hbudget₀ hsteady with
      ⟨hok, -, h⟩ | ⟨-, i, hi, -⟩
    · rw [Script.outcome_steady] at h
      exact ⟨hok, h⟩
    · simp at hi
  rcases run_followed hgiven.opened hadmitted.reopened env hbudget hfollows with
    ⟨hok, hslept, hconcluded⟩ | ⟨hraised, i, hi, hdelay⟩
  · have hends := hconcluded.endsLike hok hreturned.1 hreturned.2
    exact ⟨fun _ => hslept, fun _ => ⟨hends.returned, hends.steps, hends.status, hends.outcomes⟩⟩
  · exact ⟨fun h => absurd h.returned.1 hraised, fun h => absurd hdelay (h i hi)⟩

/-! ## Runs that answer as a script says -/

/-- A body that ends in a given way. -/
def bodyEnding : Ending → StepResult
  | .succeeded => endsWith none
  | .skipped => { endsWith none with status := .skipped }
  | .businessFailed halts =>
    endsWith (some (.business { ruleViolation with haltsRemainingSteps := halts }))
  | .systemFailed => endsWith (some (.system timeout))

/-- The body ends in the given way. -/
lemma ending_bodyEnding (ending : Ending) : (bodyEnding ending).ending = some ending := by
  cases ending with
  | businessFailed halts => rfl
  | _ => rfl

/-- The answers of the script: every body ends as it says, every other call succeeds. -/
def scriptEnv (sc : Script) (t : EngineTrace) : (op : EngineOp) → op.Res
  | .checkpoint _ => none
  | .execute st _ =>
    bodyEnding (sc.ending st.executionOrder (attemptsAt (attemptsOf t) st.executionOrder))
  | .captureScreenshot _ => .ok "screenshot.png"

/-- A program that is given these answers follows the script. -/
lemma followed_scriptEnv {α : Type} (sc : Script) (p : Prog EngineOp EngineOp.Res α)
    (checkpoints : Bool) : sc.Followed checkpoints (p.run (scriptEnv sc) []).2 where
  calm ev hev := by
    obtain ⟨t₁, t₂, ht⟩ := List.append_of_mem hev
    rw [Prog.run_res _ _ ht]
    obtain ⟨_ | ⟨st, tx⟩ | _, r⟩ := ev
    · rfl
    · intro _
      change (bodyEnding _).state.IsJsonObject
      have hstate : ∀ ending, (bodyEnding ending).state = .dict [] := by
        intro ending
        cases ending with
        | businessFailed halts => rfl
        | _ => rfl
      rw [hstate]
      exact (PyVal.objectError_eq_none_iff "" _).mp rfl
    · exact ⟨_, rfl⟩
  endings t₁ st tx r t₂ ht := by
    have hr := Prog.run_res _ _ ht
    simp only at hr
    rw [hr]
    exact ending_bodyEnding _

/-- Step `a` violates a rule; step `b` fails technically on its first attempt. -/
def retriedScript : Script where
  failures order := if order = 2 then 1 else 0
  behaves order := if order = 1 then .businessFailed false else .succeeded
  recovers order := by split <;> simp

/-- The characterisation, for a run with one retry and no delay. -/
theorem recovered_transparent_retried :
    EndsLike twoSteps (((create 1).run stillContext twoSteps).run (scriptEnv retriedScript) []).1
      (((create 1).run stillContext twoSteps).run (scriptEnv retriedScript.steady) []).1 :=
  have hgiven : twoSteps.Given := Or.inl (.fresh (by decide) rfl)
  (recovered_transparent_iff hgiven admitted_twoSteps (scriptEnv retriedScript)
    (scriptEnv retriedScript.steady) (by decide) (followed_scriptEnv _ _ _)
    (followed_scriptEnv _ _ _)).mpr fun _ _ h => h.1 rfl

/-- An engine with the delay `1e-300` and the backoff `1e200`: its delays are short at first, and
the power soon leaves the doubles. -/
def steepEngine : Engine where
  maxRetries := 3
  retryDelay := (Double.nearest (1 / 10 ^ 300)).get (by decide +kernel)
  retryBackoff := (Double.nearest (10 ^ 200)).get (by decide +kernel)
  screenshotDir := ""
  one_le_retryBackoff := by decide +kernel

/-- The step fails technically on its first three attempts and then succeeds. -/
def thriceFailing : Script where
  failures _ := 3
  behaves _ := .succeeded
  recovers _ := by simp

/-- **A recovered failure that is not transparent.** The step would succeed on its fourth
attempt, which the retries allow; but the power for the third delay is no double, so that the run is
ended by an `OverflowError` with the transaction `IN_PROGRESS`, where the run without the failures
ends `SUCCESSFUL`. -/
theorem recovered_overflow :
    oneStep.Given ∧ oneStep.Admitted ∧
    oneStep.retryCount +
      (oneStep.reopened.pendingKeys.map fun key => thriceFailing.failures key.2).sum ≤
        steepEngine.maxRetries ∧
    thriceFailing.Followed stillContext.hasCheckpoint
      ((steepEngine.run stillContext oneStep).run (scriptEnv thriceFailing) []).2 ∧
    thriceFailing.steady.Followed stillContext.hasCheckpoint
      ((steepEngine.run stillContext oneStep).run (scriptEnv thriceFailing.steady) []).2 ∧
    ((steepEngine.run stillContext oneStep).run (scriptEnv thriceFailing) []).1.2.tx.status =
      .inProgress ∧
    ((steepEngine.run stillContext oneStep).run (scriptEnv thriceFailing.steady) []).1.2.tx.status =
      .successful ∧
    ¬ EndsLike oneStep ((steepEngine.run stillContext oneStep).run (scriptEnv thriceFailing) []).1
      ((steepEngine.run stillContext oneStep).run (scriptEnv thriceFailing.steady) []).1 := by
  have hfailed :
      ((steepEngine.run stillContext oneStep).run (scriptEnv thriceFailing) []).1.2.tx.status =
        .inProgress := by
    decide +kernel
  have hsteady : ((steepEngine.run stillContext oneStep).run
      (scriptEnv thriceFailing.steady) []).1.2.tx.status = .successful := by
    decide +kernel
  refine ⟨Or.inl (.fresh (by decide) rfl), admitted_oneStep, by decide, followed_scriptEnv _ _ _,
    followed_scriptEnv _ _ _, hfailed, hsteady, fun h => ?_⟩
  have hstatus := h.status
  rw [hfailed, hsteady] at hstatus
  cases hstatus

end Engine
