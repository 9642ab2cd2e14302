import RpaCore.Effects.Proc
import Mathlib.Data.List.Induction
import Mathlib.Logic.Function.Basic

set_option relaxedAutoImplicit false
set_option autoImplicit false

/-!
# Processes over a shared state

Any number of processes call the operations of one interface, and a shared state answers each
call atomically. A process runs one program at a time; it may be left alone at any call for ever,
which is how a crash looks to the others, and it may start another program once it has returned.
All interleavings are runs.

Two rules carry an invariant along every run. The first needs each answer to preserve it. The
second is for invariants that rest on what the processes do: each program satisfies its weakest
precondition under a monitor, whose ghost state is kept for every process, and the invariant may
tie the ghost states, the shared state and the labels of the run so far.

## Main definitions

* `Machine` — which answers a shared state may give, and what it becomes.
* `Pool`, `Machine.Step`, `Machine.Run` — processes, their steps and their runs.

## Main results

* `Machine.Run.induct` — what every answer preserves holds along a run.
* `Machine.Run.calls`, `Machine.Run.sends` — what every program sends, every process sends.
* `Machine.Run.solve`, `Prog.wp_answeredBy` — a process that runs alone gives a run that can be
  computed.
* `Machine.Run.follow` — so does a schedule of several processes.
-/

/-- A shared state that answers calls: `exec s o r s'` if in state `s` the operation `o` may be
answered with `r`, leaving `s'`. -/
structure Machine (Op : Type) (Res : Op → Type) (S : Type) where
  exec : S → (o : Op) → Res o → S → Prop

/-- A shared state with the program each process has left to run. -/
structure Pool (Op : Type) (Res : Op → Type) (S α : Type) where
  shared : S
  procs : ℕ → Prog Op Res α

/-- What one step of a pool does: a process starts a program, or has a call answered. -/
inductive PoolLabel (Op : Type) (Res : Op → Type) (α : Type)
  | start (p : ℕ) (prog : Prog Op Res α)
  | answer (p : ℕ) (ev : Event Op Res)

/-- A pool in which no process is running. -/
def Pool.Idle {Op : Type} {Res : Op → Type} {S α : Type} (P : Pool Op Res S α) : Prop :=
  ∀ p, ∃ a, P.procs p = .pure a

/-- How a step moves the call that process `p` is in. -/
def PoolLabel.follow {Op : Type} {Res : Op → Type} {α : Type} (p : ℕ)
    (c : Option (Prog Op Res α × List (Event Op Res))) :
    PoolLabel Op Res α → Option (Prog Op Res α × List (Event Op Res))
  | .start q prog => if q = p then some (prog, []) else c
  | .answer q ev => if q = p then c.map fun c => (c.1, c.2 ++ [ev]) else c

/-- The call that process `p` is in, or has last returned from: its program, and its events so
far. -/
def callOf {Op : Type} {Res : Op → Type} {α : Type} (p : ℕ) (t : List (PoolLabel Op Res α)) :
    Option (Prog Op Res α × List (Event Op Res)) :=
  t.foldl (PoolLabel.follow p) none

/-- One more step. -/
@[simp] lemma callOf_append {Op : Type} {Res : Op → Type} {α : Type} (p : ℕ)
    (t : List (PoolLabel Op Res α)) (l : PoolLabel Op Res α) :
    callOf p (t ++ [l]) = l.follow p (callOf p t) := by
  simp [callOf]

/-- The process that takes a step. -/
def PoolLabel.process {Op : Type} {Res : Op → Type} {α : Type} : PoolLabel Op Res α → ℕ
  | .start p _ => p
  | .answer p _ => p

/-- The call of a process that only makes one call in the rest of a run. -/
lemma callOf_of_filter {Op : Type} {Res : Op → Type} {α : Type} {p : ℕ}
    {t u : List (PoolLabel Op Res α)} {prog : Prog Op Res α} {evs : List (Event Op Res)}
    (h : u.filter (fun l => l.process = p) = .start p prog :: evs.map (.answer p)) :
    callOf p (t ++ u) = some (prog, evs) := by
  have hskip : ∀ (l : PoolLabel Op Res α) (c : Option (Prog Op Res α × List (Event Op Res))),
      l.process ≠ p → l.follow p c = c := by
    intro l c hl
    cases l with
    | start => exact if_neg hl
    | answer => exact if_neg hl
  have hfilter : ∀ (u : List (PoolLabel Op Res α)) c, u.foldl (PoolLabel.follow p) c =
      (u.filter fun l => l.process = p).foldl (PoolLabel.follow p) c := by
    intro u
    induction u with
    | nil => exact fun c => rfl
    | cons l u ih =>
      intro c
      by_cases hl : l.process = p
      · simp [hl, ih]
      · simp [hl, ih, hskip l c hl]
  have hevs : ∀ (evs evs₀ : List (Event Op Res)),
      (evs.map (.answer p)).foldl (PoolLabel.follow p) (some (prog, evs₀)) =
        some (prog, evs₀ ++ evs) := by
    intro evs
    induction evs with
    | nil => simp
    | cons ev evs ih =>
      intro evs₀
      simp [PoolLabel.follow, ih]
  unfold callOf
  rw [List.foldl_append, hfilter u, h, List.foldl_cons, PoolLabel.follow, if_pos rfl, hevs]
  rfl

/-- The events of a call are steps of the run. -/
lemma callOf_mem {Op : Type} {Res : Op → Type} {α : Type} {p : ℕ}
    {t : List (PoolLabel Op Res α)} {prog : Prog Op Res α} {evs : List (Event Op Res)}
    (h : callOf p t = some (prog, evs)) {ev : Event Op Res} (hev : ev ∈ evs) :
    ∃ t₁ t₂, t = t₁ ++ .answer p ev :: t₂ := by
  induction t using List.reverseRecOn generalizing prog evs with
  | nil => cases h
  | append_singleton t l ih =>
    rw [callOf_append] at h
    have hearlier : ∀ {prog' evs'}, callOf p t = some (prog', evs') → ev ∈ evs' →
        ∃ t₁ t₂, t ++ [l] = t₁ ++ .answer p ev :: t₂ := by
      intro prog' evs' hcur hmem
      obtain ⟨t₁, t₂, rfl⟩ := ih hcur hmem
      exact ⟨t₁, t₂ ++ [l], by simp⟩
    cases l with
    | start q prog' =>
      simp only [PoolLabel.follow] at h
      split at h
      · cases h
        exact absurd hev List.not_mem_nil
      · exact hearlier h hev
    | answer q ev' =>
      simp only [PoolLabel.follow] at h
      split at h
      · next hq =>
        subst hq
        obtain ⟨⟨prog', evs'⟩, hcur, heq⟩ := Option.map_eq_some_iff.mp h
        cases heq
        rcases List.mem_append.mp hev with hev | hev
        · exact hearlier hcur hev
        · rw [List.mem_singleton.mp hev]
          exact ⟨t, [], rfl⟩
      · exact hearlier h hev

/-- The step of an event of a call, with the events of the call before it. -/
lemma callOf_split {Op : Type} {Res : Op → Type} {α : Type} {p : ℕ}
    {t : List (PoolLabel Op Res α)} {prog : Prog Op Res α} {evs₁ evs₂ : List (Event Op Res)}
    {ev : Event Op Res} (h : callOf p t = some (prog, evs₁ ++ ev :: evs₂)) :
    ∃ t₁ t₂, t = t₁ ++ .answer p ev :: t₂ ∧ callOf p t₁ = some (prog, evs₁) ∧
      ∀ prog', PoolLabel.start p prog' ∉ t₂ := by
  induction t using List.reverseRecOn generalizing evs₂ with
  | nil => cases h
  | append_singleton t l ih =>
    rw [callOf_append] at h
    have hearlier : ∀ {evs₂'}, callOf p t = some (prog, evs₁ ++ ev :: evs₂') →
        (∀ prog', l ≠ .start p prog') → ∃ t₁ t₂, t ++ [l] = t₁ ++ .answer p ev :: t₂ ∧
          callOf p t₁ = some (prog, evs₁) ∧ ∀ prog', PoolLabel.start p prog' ∉ t₂ := by
      intro evs₂' hcur hl
      obtain ⟨t₁, t₂, rfl, hcall, hno⟩ := ih hcur
      refine ⟨t₁, t₂ ++ [l], by simp, hcall, fun prog' hmem => ?_⟩
      rcases List.mem_append.mp hmem with hmem | hmem
      · exact hno prog' hmem
      · exact hl prog' (List.mem_singleton.mp hmem).symm
    cases l with
    | start q prog' =>
      simp only [PoolLabel.follow] at h
      split at h
      · have hevs := congrArg Prod.snd (Option.some.inj h)
        simp at hevs
      · next hq =>
        refine hearlier h fun prog'' heq => hq ?_
        cases heq
        rfl
    | answer q ev' =>
      simp only [PoolLabel.follow] at h
      split at h
      · next hq =>
        subst hq
        obtain ⟨⟨prog', evs'⟩, hcur, heq⟩ := Option.map_eq_some_iff.mp h
        obtain ⟨rfl, hevs⟩ := Prod.mk.inj heq
        rcases List.eq_nil_or_concat evs₂ with rfl | ⟨evs₂', last, rfl⟩
        · obtain ⟨rfl, hev⟩ := List.append_inj' hevs rfl
          cases hev
          exact ⟨t, [], rfl, hcur, by simp⟩
        · rw [List.concat_eq_append, ← List.cons_append, ← List.append_assoc] at hevs
          obtain ⟨rfl, -⟩ := List.append_inj' hevs rfl
          exact hearlier hcur (by simp)
      · exact hearlier h (by simp)

namespace Machine

variable {Op : Type} {Res : Op → Type} {S α : Type} (m : Machine Op Res S)
  (Calls : Prog Op Res α → Prop)

/-- One step: a process that has returned starts a program, or the call of a process is
answered. -/
inductive Step : Pool Op Res S α → PoolLabel Op Res α → Pool Op Res S α → Prop
  | start {P : Pool Op Res S α} {p : ℕ} {a : α} {prog : Prog Op Res α}
      (hidle : P.procs p = .pure a) (hcall : Calls prog) :
      Step P (.start p prog) ⟨P.shared, Function.update P.procs p prog⟩
  | answer {P : Pool Op Res S α} {p : ℕ} {o : Op} {k : Res o → Prog Op Res α} {r : Res o} {s' : S}
      (hcall : P.procs p = .call o k) (hexec : m.exec P.shared o r s') :
      Step P (.answer p ⟨o, r⟩) ⟨s', Function.update P.procs p (k r)⟩

/-- Runs, with the labels of their steps. -/
inductive Run : Pool Op Res S α → List (PoolLabel Op Res α) → Pool Op Res S α → Prop
  | nil (P : Pool Op Res S α) : Run P [] P
  | snoc {P Q Q' : Pool Op Res S α} {t : List (PoolLabel Op Res α)} {l : PoolLabel Op Res α}
      (hrun : Run P t Q) (hstep : Step m Calls Q l Q') : Run P (t ++ [l]) Q'

variable {m Calls}

/-- A run of some calls is a run of more of them. -/
lemma Run.mono {Calls' : Prog Op Res α → Prop} (hcalls : ∀ prog, Calls prog → Calls' prog)
    {P Q : Pool Op Res S α} {t : List (PoolLabel Op Res α)} (h : m.Run Calls P t Q) :
    m.Run Calls' P t Q := by
  induction h with
  | nil => exact .nil _
  | snoc _ hstep ih =>
    refine .snoc ih ?_
    cases hstep with
    | start hidle hcall => exact .start hidle (hcalls _ hcall)
    | answer hcall hexec => exact .answer hcall hexec

/-- Two runs, one after the other. -/
lemma Run.append {P Q R : Pool Op Res S α} {t t' : List (PoolLabel Op Res α)}
    (h : m.Run Calls P t Q) (h' : m.Run Calls Q t' R) : m.Run Calls P (t ++ t') R := by
  induction h' with
  | nil => simpa using h
  | snoc _ hstep ih =>
    rw [← List.append_assoc]
    exact .snoc ih hstep

/-- A run passes through a state after each of its prefixes. -/
lemma Run.split {P R : Pool Op Res S α} {t t' : List (PoolLabel Op Res α)}
    (h : m.Run Calls P (t ++ t') R) : ∃ Q, m.Run Calls P t Q ∧ m.Run Calls Q t' R := by
  induction t' using List.reverseRecOn generalizing R with
  | nil => exact ⟨R, by simpa using h, .nil R⟩
  | append_singleton t' l ih =>
    rw [← List.append_assoc] at h
    generalize ht : t ++ t' ++ [l] = t'' at h
    cases h with
    | nil => simp at ht
    | snoc hrun hstep =>
      obtain ⟨rfl, hl⟩ := List.append_inj' ht rfl
      cases hl
      obtain ⟨Q, hQ, hQ'⟩ := ih hrun
      exact ⟨Q, hQ, .snoc hQ' hstep⟩

/-- A run of one more step, from its front. -/
lemma Run.head {P R : Pool Op Res S α} {l : PoolLabel Op Res α} {t : List (PoolLabel Op Res α)}
    (h : m.Run Calls P (l :: t) R) : ∃ Q, m.Step Calls P l Q ∧ m.Run Calls Q t R := by
  obtain ⟨Q, hQ, hQ'⟩ := Run.split (t := [l]) (by simpa using h)
  refine ⟨Q, ?_, hQ'⟩
  generalize ht : [l] = t' at hQ
  cases hQ with
  | nil => cases ht
  | snoc hrun hstep =>
    rw [← List.nil_append [l]] at ht
    obtain ⟨hnil, hl⟩ := List.append_inj' ht rfl
    cases hl
    cases hrun with
    | nil => exact hstep
    | snoc => simp at hnil

/-- A run passes through the states before and after each of its steps. -/
lemma Run.middle {P R : Pool Op Res S α} {t t' : List (PoolLabel Op Res α)}
    {l : PoolLabel Op Res α} (h : m.Run Calls P (t ++ l :: t') R) :
    ∃ Q Q', m.Run Calls P t Q ∧ m.Step Calls Q l Q' ∧ m.Run Calls Q' t' R := by
  obtain ⟨Q, hbefore, hrest⟩ := h.split
  obtain ⟨Q', hstep, hafter⟩ := hrest.head
  exact ⟨Q, Q', hbefore, hstep, hafter⟩

/-- **Induction along a run**, with each step's place in the run at hand. -/
theorem Run.induct {I : List (PoolLabel Op Res α) → S → Prop} {P Q : Pool Op Res S α}
    {t : List (PoolLabel Op Res α)} (h : m.Run Calls P t Q) (hnil : I [] P.shared)
    (hstart : ∀ t₁ p prog t₂ s, t = t₁ ++ .start p prog :: t₂ → I t₁ s →
      I (t₁ ++ [.start p prog]) s)
    (hanswer : ∀ t₁ p o r t₂ s s', t = t₁ ++ .answer p ⟨o, r⟩ :: t₂ → m.exec s o r s' → I t₁ s →
      I (t₁ ++ [.answer p ⟨o, r⟩]) s') : I t Q.shared := by
  induction h with
  | nil => exact hnil
  | @snoc Q Q' t l _ hlast ih =>
    have hI := ih (fun t₁ p prog t₂ s ht => hstart t₁ p prog (t₂ ++ [l]) s (by simp [ht]))
      fun t₁ p o r t₂ s s' ht => hanswer t₁ p o r (t₂ ++ [l]) s s' (by simp [ht])
    cases hlast with
    | start => exact hstart t _ _ [] _ rfl hI
    | answer _ hexec => exact hanswer t _ _ _ [] _ _ rfl hexec hI

/-! ## Calls and their events -/

/-- What a process has left to run, after some events of a call of the program `prog`: it
satisfies the weakest precondition, as long as the answers were admitted. A process that never
made a call is as it was `first`. -/
def Follows (pre : Prog Op Res α → List (Event Op Res) → Op → Prop)
    (admits : Prog Op Res α → List (Event Op Res) → (o : Op) → Res o → Prop)
    (post : Prog Op Res α → α → List (Event Op Res) → Prop) (first left : Prog Op Res α) :
    Option (Prog Op Res α × List (Event Op Res)) → Prop
  | none => left = first
  | some (prog, evs) => (traceMonitor (pre prog) (admits prog)).Honest [] evs →
    left.wp (traceMonitor (pre prog) (admits prog)) (post prog) evs

/-- **What holds of every program holds of every call of a run.** Each program satisfies its
weakest precondition under the monitor that records its events. Then, as long as the answers were
admitted, every call that was answered met its precondition, and every process satisfies the
weakest precondition of what it has left.

**Proof sketch.** Induction on the run: a start begins an empty list of events, and an answer
appends one event to the list of its process. -/
theorem Run.calls (pre : Prog Op Res α → List (Event Op Res) → Op → Prop)
    (admits : Prog Op Res α → List (Event Op Res) → (o : Op) → Res o → Prop)
    (post : Prog Op Res α → α → List (Event Op Res) → Prop)
    (hcalls : ∀ prog, Calls prog →
      prog.wp (traceMonitor (pre prog) (admits prog)) (post prog) [])
    {P Q : Pool Op Res S α} {t : List (PoolLabel Op Res α)} (h : m.Run Calls P t Q)
    (hP : P.Idle) :
    (∀ t₁ p ev t₂, t = t₁ ++ .answer p ev :: t₂ → ∃ prog evs, callOf p t₁ = some (prog, evs) ∧
      ((traceMonitor (pre prog) (admits prog)).Honest [] evs → pre prog evs ev.op)) ∧
    ∀ p, Follows pre admits post (P.procs p) (Q.procs p) (callOf p t) := by
  induction h with
  | nil => exact ⟨by simp, fun _ => rfl⟩
  | @snoc Q Q' t l _ hstep ih =>
    obtain ⟨hpre, hwp⟩ := ih
    cases hstep with
    | @start p a prog hidle hcall =>
      refine ⟨fun t₁ q ev t₂ ht => ?_, fun q => ?_⟩
      · rcases List.eq_nil_or_concat t₂ with rfl | ⟨t₂', l, rfl⟩
        · simpa using List.append_inj_right' ht rfl
        · rw [List.concat_eq_append, ← List.cons_append, ← List.append_assoc] at ht
          exact hpre t₁ q ev t₂' (List.append_inj_left' ht rfl)
      · rw [callOf_append]
        by_cases hq : p = q
        · subst hq
          simpa [Follows, PoolLabel.follow] using fun _ => hcalls prog hcall
        · have hne : q ≠ p := fun h => hq h.symm
          simpa [PoolLabel.follow, hq, hne] using hwp q
    | @answer p o k r s' hcall hexec =>
      have hp := hwp p
      rw [hcall] at hp
      cases hcur : callOf p t with
      | none =>
        rw [hcur] at hp
        obtain ⟨a, ha⟩ := hP p
        cases ha.symm.trans (Eq.symm hp)
      | some c =>
        obtain ⟨prog, evs⟩ := c
        rw [hcur] at hp
        refine ⟨fun t₁ q ev t₂ ht => ?_, fun q => ?_⟩
        · rcases List.eq_nil_or_concat t₂ with rfl | ⟨t₂', l, rfl⟩
          · obtain ⟨rfl, hl⟩ := List.append_inj' ht rfl
            cases hl
            exact ⟨prog, evs, hcur, fun hhonest => (hp hhonest).1⟩
          · rw [List.concat_eq_append, ← List.cons_append, ← List.append_assoc] at ht
            exact hpre t₁ q ev t₂' (List.append_inj_left' ht rfl)
        · rw [callOf_append]
          by_cases hq : p = q
          · subst hq
            simp only [PoolLabel.follow, hcur, if_true, Option.map_some, Function.update_self]
            intro hhonest
            obtain ⟨hhonest, hadm⟩ := Monitor.honest_append.mp hhonest
            rw [replay_traceMonitor] at hadm
            exact (hp hhonest).2 r hadm
          · have hne : q ≠ p := fun h => hq h.symm
            simpa [PoolLabel.follow, hq, hne] using hwp q

/-- What holds of the program of a call holds of what the call returned. -/
theorem Run.returned_of_wp {prog : Prog Op Res α} {Q : α → List (Event Op Res) → Prop}
    (hwp : prog.wp (traceMonitor (fun _ _ => True) fun _ _ _ => True) Q [])
    {P R : Pool Op Res S α} {t : List (PoolLabel Op Res α)} (h : m.Run Calls P t R) (hP : P.Idle)
    {p : ℕ} {evs : List (Event Op Res)} {a : α} (hcur : callOf p t = some (prog, evs))
    (ha : R.procs p = .pure a) : Q a evs := by
  have hcalls : ∀ prog', Calls prog' → prog'.wp (traceMonitor (fun _ _ => True) fun _ _ _ => True)
      (fun a evs => prog' = prog → Q a evs) [] := by
    intro prog' _
    by_cases heq : prog' = prog
    · subst heq
      exact Prog.wp_mono hwp fun _ _ hQ _ => hQ
    · exact Prog.wp_of_forall (fun _ _ => trivial) (fun _ _ h => absurd h heq) _ _
  obtain ⟨-, hfollows⟩ := Run.calls (fun _ _ _ => True) (fun _ _ _ _ => True)
    (fun prog' a evs => prog' = prog → Q a evs) hcalls h hP
  have hp := hfollows p
  rw [hcur, ha] at hp
  exact hp (honest_of_forall (fun _ _ _ => trivial) _ _) rfl

/-- **What every program sends, every process sends.** Each program only makes calls with a
property; so does what each process has left, and so is every call that is answered next. -/
theorem Run.sends {M : Op → Prop}
    (hcalls : ∀ prog, Calls prog → prog.wp (sendsOnly M) (fun _ _ => True) ())
    {P Q : Pool Op Res S α} {t : List (PoolLabel Op Res α)} (h : m.Run Calls P t Q)
    (hP : P.Idle) : ∀ p, (Q.procs p).wp (sendsOnly M) (fun _ _ => True) () := by
  induction h with
  | nil =>
    intro p
    obtain ⟨a, ha⟩ := hP p
    rw [ha]
    trivial
  | snoc _ hstep ih =>
    intro p
    cases hstep with
    | @start q _ prog _ hcall =>
      dsimp only
      by_cases hq : p = q
      · subst hq
        rw [Function.update_self]
        exact hcalls prog hcall
      · rw [Function.update_of_ne hq]
        exact ih p
    | @answer q o k r s' hcall _ =>
      dsimp only
      by_cases hq : p = q
      · subst hq
        have hp := ih p
        rw [hcall] at hp
        rw [Function.update_self]
        exact hp.2 r trivial
      · rw [Function.update_of_ne hq]
        exact ih p

end Machine

/-! ## Runs that can be computed -/

variable {Op : Type} {Res : Op → Type} {S α : Type}

/-- A program run to its end by a fixed way of answering its calls: its result, the state it
leaves, and its events. -/
def Prog.solve (answer : S → (o : Op) → Res o × S) :
    Prog Op Res α → S → α × S × List (Event Op Res)
  | .pure a, s => (a, s, [])
  | .call o k, s =>
    let r := solve answer (k (answer s o).1) (answer s o).2
    (r.1, r.2.1, ⟨o, (answer s o).1⟩ :: r.2.2)

/-- The monitor of a fixed way of answering calls. Its ghost state is the shared state. -/
def answeredBy (answer : S → (o : Op) → Res o × S) : Monitor Op Res S where
  pre _ _ := True
  admits s o r := r = (answer s o).1
  next s o _ := (answer s o).2

/-- A program that runs alone ends as its weakest precondition says. -/
lemma Prog.wp_answeredBy {answer : S → (o : Op) → Res o × S} {Q : α → S → Prop}
    {p : Prog Op Res α} {s : S} :
    p.wp (answeredBy answer) Q s ↔ Q (p.solve answer s).1 (p.solve answer s).2.1 := by
  induction p generalizing s with
  | pure a => exact Iff.rfl
  | call o k ih => simp [answeredBy, solve, ← ih]

/-- One call that is answered in a fixed way. -/
@[simp] lemma Proc.wp_call_answeredBy {T E : Type} {answer : S → (o : Op) → Res o × S} (o : Op)
    {Q : Res o → T → S → Prop} {R : E → T → S → Prop} {t : T} {s : S} :
    (Proc.call o : Proc Op Res T E (Res o)).wp (answeredBy answer) Q R t s ↔
      Q (answer s o).1 t (answer s o).2 := by
  simp [answeredBy]

/-- The pool after process `p` has run `prog` to its end, with nobody else moving. -/
def Pool.solve (answer : S → (o : Op) → Res o × S) (p : ℕ) (prog : Prog Op Res α)
    (P : Pool Op Res S α) : Pool Op Res S α :=
  ⟨(prog.solve answer P.shared).2.1,
    Function.update P.procs p (.pure (prog.solve answer P.shared).1)⟩

/-- The labels of that run. -/
def Pool.solveLabels (answer : S → (o : Op) → Res o × S) (p : ℕ) (prog : Prog Op Res α)
    (P : Pool Op Res S α) : List (PoolLabel Op Res α) :=
  .start p prog :: (prog.solve answer P.shared).2.2.map (.answer p)

/-- The pool after the next call of process `p` is answered, if it has one. -/
def Pool.advance (answer : S → (o : Op) → Res o × S) (p : ℕ) (P : Pool Op Res S α) :
    Pool Op Res S α :=
  match P.procs p with
  | .pure _ => P
  | .call o k => ⟨(answer P.shared o).2, Function.update P.procs p (k (answer P.shared o).1)⟩

/-- The label of that step. -/
def Pool.advanceLabels (answer : S → (o : Op) → Res o × S) (p : ℕ) (P : Pool Op Res S α) :
    List (PoolLabel Op Res α) :=
  match P.procs p with
  | .pure _ => []
  | .call o _ => [.answer p ⟨o, (answer P.shared o).1⟩]

/-- The pool after a schedule: who moves next, and how the call is answered. -/
def Pool.follow {A : Type} (answer : A → S → (o : Op) → Res o × S) :
    List (ℕ × A) → Pool Op Res S α → Pool Op Res S α
  | [], P => P
  | (p, a) :: schedule, P => follow answer schedule (P.advance (answer a) p)

/-- The labels of that run. -/
def Pool.followLabels {A : Type} (answer : A → S → (o : Op) → Res o × S) :
    List (ℕ × A) → Pool Op Res S α → List (PoolLabel Op Res α)
  | [], _ => []
  | (p, a) :: schedule, P =>
    P.advanceLabels (answer a) p ++ followLabels answer schedule (P.advance (answer a) p)

/-- The others have left what they had. -/
lemma Pool.advance_procs {answer : S → (o : Op) → Res o × S} {p q : ℕ} (h : q ≠ p)
    (P : Pool Op Res S α) : (P.advance answer p).procs q = P.procs q := by
  unfold advance
  split
  · rfl
  · exact Function.update_of_ne h _ _

/-- A process that is not in a schedule has left what it had. -/
lemma Pool.follow_procs {A : Type} {answer : A → S → (o : Op) → Res o × S} {q : ℕ}
    {schedule : List (ℕ × A)} (h : ∀ step ∈ schedule, q ≠ step.1) (P : Pool Op Res S α) :
    (P.follow answer schedule).procs q = P.procs q := by
  induction schedule generalizing P with
  | nil => rfl
  | cons step schedule ih =>
    obtain ⟨hstep, hschedule⟩ := List.forall_mem_cons.mp h
    exact (ih hschedule _).trans (advance_procs hstep P)

namespace Machine

variable {m : Machine Op Res S} {Calls : Prog Op Res α → Prop}

/-- A process that runs to its end with nobody else moving is a run of the pool. -/
theorem Run.solve {Inv : S → Prop} {answer : S → (o : Op) → Res o × S}
    (hanswer : ∀ s o, Inv s → m.exec s o (answer s o).1 (answer s o).2 ∧ Inv (answer s o).2)
    {P Q : Pool Op Res S α} {t : List (PoolLabel Op Res α)} (h : m.Run Calls P t Q)
    (hInv : Inv Q.shared) {p : ℕ} {a : α} (hidle : Q.procs p = .pure a) {prog : Prog Op Res α}
    (hcall : Calls prog) :
    m.Run Calls P (t ++ Q.solveLabels answer p prog) (Q.solve answer p prog) ∧
      Inv (Q.solve answer p prog).shared := by
  suffices hgen : ∀ (prog : Prog Op Res α) (t : List (PoolLabel Op Res α)) (Q : Pool Op Res S α),
      m.Run Calls P t Q → Inv Q.shared → Q.procs p = prog →
      m.Run Calls P (t ++ (prog.solve answer Q.shared).2.2.map (.answer p))
        (Q.solve answer p prog) ∧ Inv (Q.solve answer p prog).shared by
    have hstart := h.snoc (.start hidle hcall)
    obtain ⟨hrun, hInv'⟩ := hgen prog _ _ hstart hInv (by simp)
    refine ⟨?_, hInv'⟩
    simpa [Pool.solveLabels, Pool.solve] using hrun
  intro prog
  induction prog with
  | pure a =>
    intro t Q hrun hInv hQ
    have hsame : Q.solve answer p (.pure a) = Q := by
      have hprocs : Function.update Q.procs p (.pure a) = Q.procs := by
        rw [← hQ, Function.update_eq_self]
      simp only [Pool.solve, Prog.solve, hprocs]
    rw [hsame]
    simpa [Prog.solve] using ⟨hrun, hInv⟩
  | call o k ih =>
    intro t Q hrun hInv hQ
    obtain ⟨hexec, hInv'⟩ := hanswer Q.shared o hInv
    obtain ⟨hrun', hInv''⟩ := ih (answer Q.shared o).1 _ _ (hrun.snoc (.answer hQ hexec)) hInv'
      (by simp)
    refine ⟨?_, hInv''⟩
    simpa [Prog.solve, Pool.solve] using hrun'

/-- A schedule gives a run of the pool. -/
theorem Run.follow {A : Type} {Inv : S → Prop} {answer : A → S → (o : Op) → Res o × S}
    (hanswer : ∀ a s o, Inv s →
      m.exec s o (answer a s o).1 (answer a s o).2 ∧ Inv (answer a s o).2)
    (schedule : List (ℕ × A)) {P Q : Pool Op Res S α} {t : List (PoolLabel Op Res α)}
    (h : m.Run Calls P t Q) (hInv : Inv Q.shared) :
    m.Run Calls P (t ++ Q.followLabels answer schedule) (Q.follow answer schedule) ∧
      Inv (Q.follow answer schedule).shared := by
  induction schedule generalizing t Q with
  | nil => simpa [Pool.followLabels, Pool.follow] using ⟨h, hInv⟩
  | cons step schedule ih =>
    obtain ⟨p, a⟩ := step
    have hnext : m.Run Calls P (t ++ Q.advanceLabels (answer a) p) (Q.advance (answer a) p) ∧
        Inv (Q.advance (answer a) p).shared := by
      unfold Pool.advance Pool.advanceLabels
      cases hp : Q.procs p with
      | pure => simpa using ⟨h, hInv⟩
      | call o k =>
        obtain ⟨hexec, hInv'⟩ := hanswer a Q.shared o hInv
        exact ⟨h.snoc (.answer hp hexec), hInv'⟩
    have hrest := ih hnext.1 hnext.2
    rwa [List.append_assoc] at hrest

end Machine
