import Mathlib.Data.List.Basic
import Mathlib.Logic.Basic
import Mathlib.Tactic.Common

set_option relaxedAutoImplicit false
set_option autoImplicit false

/-!
# Programs that call out

A program over an interface `Op`, `Res` is a finite tree: it returns a value, or calls an
operation `o : Op` and continues with whatever response of type `Res o` it is given. What the
environment answers is left open, so one program has one run for every way of answering its
calls. Two readings of the tree are used: `Prog.run` answers every call by a function of the
events so far and records them, and `Prog.wp` asks for a precondition at every call.

## Main definitions

* `Prog` — the tree of a program, with its monad structure.
* `Prog.run` — the run against an environment, with the list of events it produces.
* `Monitor`, `Prog.wp` — a ghost state that follows the calls, and the weakest precondition of
  a program under it.
* `Prog.interp` — every call of a program answered by a program over another interface.
* `Prog.embed` — a program over some operations of a larger interface.

## Main results

* `Prog.wp_bind`, `Prog.wp_mono` — the rules of the weakest precondition.
* `Prog.wp_run` — in a run whose responses are admitted by the monitor, every call meets its
  precondition and the result satisfies the postcondition.
* `Prog.wp_run_honest` — the same of a run whose own answers are admitted.
* `Prog.wp_interp` — a weakest precondition survives an interpretation that simulates the
  monitor.
* `Prog.wp_simulate` — it survives a change of the monitor, too.
* `Prog.wp_run_prefix` — it holds up to the first response that is not admitted.
-/

/-- A program over the operations `Op` with responses `Res`: a result, or a call and what
follows each of its responses. -/
inductive Prog (Op : Type) (Res : Op → Type) (α : Type) : Type
  | pure (a : α)
  | call (o : Op) (k : Res o → Prog Op Res α)

/-- One call with the response it was given. -/
structure Event (Op : Type) (Res : Op → Type) where
  op : Op
  res : Res op

/-- A ghost state following the calls of a program: what must hold when an operation is
called, which responses are admitted, and how a response moves the ghost state. -/
structure Monitor (Op : Type) (Res : Op → Type) (γ : Type) where
  pre : γ → Op → Prop
  admits : γ → (o : Op) → Res o → Prop
  next : γ → (o : Op) → Res o → γ

namespace Prog

variable {Op : Type} {Res : Op → Type} {α β δ γ : Type}

/-- Sequencing: graft `f` at the results of a program. -/
def bind : Prog Op Res α → (α → Prog Op Res β) → Prog Op Res β
  | .pure a, f => f a
  | .call o k, f => .call o fun r => bind (k r) f

instance : Monad (Prog Op Res) where
  pure := Prog.pure
  bind := Prog.bind

/-- Binding a returned value applies the continuation. -/
@[simp] lemma pure_bind' (a : α) (f : α → Prog Op Res β) : (Prog.pure a).bind f = f a := rfl

/-- Binding a call binds each of its continuations. -/
@[simp] lemma call_bind (o : Op) (k : Res o → Prog Op Res α) (f : α → Prog Op Res β) :
    (Prog.call o k).bind f = .call o fun r => (k r).bind f := rfl

/-- Programs are a lawful monad: sequencing is associative. -/
lemma lawfulMonad (Op : Type) (Res : Op → Type) : LawfulMonad (Prog Op Res) := by
  refine LawfulMonad.mk' (Prog Op Res) (fun p => ?_) (fun a f => rfl) (fun p f g => ?_)
  · induction p with
    | pure a => rfl
    | call o k ih => exact congrArg (Prog.call o) (funext ih)
  · induction p with
    | pure a => rfl
    | call o k ih => exact congrArg (Prog.call o) (funext ih)

/-! ## Runs against an environment -/

/-- **The run of a program**: `env` answers each call knowing the events so far; the run
returns the result with the events it added to `t`. -/
def run (env : List (Event Op Res) → (o : Op) → Res o) :
    Prog Op Res α → List (Event Op Res) → α × List (Event Op Res)
  | .pure a, t => (a, t)
  | .call o k, t => run env (k (env t o)) (t ++ [⟨o, env t o⟩])

/-- Running a sequence runs the parts one after the other. -/
lemma run_bind (env : List (Event Op Res) → (o : Op) → Res o) (p : Prog Op Res α)
    (f : α → Prog Op Res β) (t : List (Event Op Res)) :
    (p.bind f).run env t = (f (p.run env t).1).run env (p.run env t).2 := by
  induction p generalizing t with
  | pure a => rfl
  | call o k ih => simp only [call_bind, run, ih]

/-! ## Weakest preconditions under a monitor -/

/-- **Weakest precondition**: from ghost state `g`, every call meets its precondition whatever
admitted responses came before, and every result satisfies `Q`. -/
def wp (M : Monitor Op Res γ) : Prog Op Res α → (α → γ → Prop) → γ → Prop
  | .pure a, Q, g => Q a g
  | .call o k, Q, g => M.pre g o ∧ ∀ r, M.admits g o r → wp M (k r) Q (M.next g o r)

variable {M : Monitor Op Res γ}

/-- The weakest precondition of a returned value. -/
@[simp] lemma wp_pure (a : α) (Q : α → γ → Prop) (g : γ) :
    (Prog.pure a : Prog Op Res α).wp M Q g ↔ Q a g := Iff.rfl

/-- The weakest precondition of a call. -/
@[simp] lemma wp_call (o : Op) (k : Res o → Prog Op Res α) (Q : α → γ → Prop) (g : γ) :
    (Prog.call o k).wp M Q g ↔
      M.pre g o ∧ ∀ r, M.admits g o r → (k r).wp M Q (M.next g o r) := Iff.rfl

/-- The weakest precondition is monotone in the postcondition. -/
lemma wp_mono {p : Prog Op Res α} {Q Q' : α → γ → Prop} {g : γ} (h : p.wp M Q g)
    (hQ : ∀ a g', Q a g' → Q' a g') : p.wp M Q' g := by
  induction p generalizing g with
  | pure a => exact hQ a g h
  | call o k ih => exact ⟨h.1, fun r hr => ih r (h.2 r hr)⟩

/-- The rule of sequencing. -/
lemma wp_bind (p : Prog Op Res α) (f : α → Prog Op Res β) (Q : β → γ → Prop) (g : γ) :
    (p.bind f).wp M Q g ↔ p.wp M (fun a g' => (f a).wp M Q g') g := by
  induction p generalizing g with
  | pure a => exact Iff.rfl
  | call o k ih => simp only [call_bind, wp_call, ih]

end Prog

namespace Monitor

variable {Op : Type} {Res : Op → Type} {γ : Type}

/-- The ghost state after a list of events. -/
def replay (M : Monitor Op Res γ) (g : γ) (t : List (Event Op Res)) : γ :=
  t.foldl (fun g e => M.next g e.op e.res) g

/-- Every response of a list of events is admitted. -/
def Honest (M : Monitor Op Res γ) : γ → List (Event Op Res) → Prop
  | _, [] => True
  | g, e :: t => M.admits g e.op e.res ∧ Honest M (M.next g e.op e.res) t

/-- One more event. -/
lemma honest_append {M : Monitor Op Res γ} {g : γ} {t : List (Event Op Res)} {e : Event Op Res} :
    M.Honest g (t ++ [e]) ↔ M.Honest g t ∧ M.admits (M.replay g t) e.op e.res := by
  induction t generalizing g with
  | nil => simp [Honest, replay]
  | cons d t ih =>
    simp only [List.cons_append, Honest, ih, and_assoc]
    rfl

/-- Every call of a list of events meets its precondition. -/
def Accepts (M : Monitor Op Res γ) : γ → List (Event Op Res) → Prop
  | _, [] => True
  | g, e :: t => M.pre g e.op ∧ Accepts M (M.next g e.op e.res) t

/-- An accepted list meets the precondition of each of its calls, at the ghost state of the
events before it. -/
lemma Accepts.at {M : Monitor Op Res γ} {g : γ} {t₁ t₂ : List (Event Op Res)} {e : Event Op Res}
    (h : M.Accepts g (t₁ ++ e :: t₂)) : M.pre (M.replay g t₁) e.op := by
  induction t₁ generalizing g with
  | nil => exact h.1
  | cons d t₁ ih => exact ih h.2

end Monitor

/-- The monitor whose ghost state is the list of events itself. -/
def traceMonitor {Op : Type} {Res : Op → Type} (pre : List (Event Op Res) → Op → Prop)
    (admits : List (Event Op Res) → (o : Op) → Res o → Prop) :
    Monitor Op Res (List (Event Op Res)) where
  pre := pre
  admits := admits
  next t o r := t ++ [⟨o, r⟩]

/-- Replaying events on the trace monitor appends them. -/
@[simp] lemma replay_traceMonitor {Op : Type} {Res : Op → Type}
    (pre : List (Event Op Res) → Op → Prop)
    (admits : List (Event Op Res) → (o : Op) → Res o → Prop) (t t' : List (Event Op Res)) :
    (traceMonitor pre admits).replay t t' = t ++ t' := by
  induction t' generalizing t with
  | nil => simp [Monitor.replay]
  | cons e t' ih =>
    have h := ih (t ++ [e])
    simp only [Monitor.replay, List.foldl_cons, traceMonitor] at h ⊢
    rw [h, List.append_assoc, List.singleton_append]

/-- The monitor of a property of the calls alone. -/
def sendsOnly {Op : Type} {Res : Op → Type} (P : Op → Prop) : Monitor Op Res Unit where
  pre _ := P
  admits _ _ _ := True
  next _ _ _ := ()

/-- Events whose responses are admitted at every ghost state are honest. -/
lemma honest_of_mem {Op : Type} {Res : Op → Type} {γ : Type} {M : Monitor Op Res γ}
    {t : List (Event Op Res)} (h : ∀ ev ∈ t, ∀ g, M.admits g ev.op ev.res) (g : γ) :
    M.Honest g t := by
  induction t generalizing g with
  | nil => trivial
  | cons ev t ih =>
    exact ⟨h ev List.mem_cons_self g, ih (fun ev' hev' => h ev' (List.mem_cons_of_mem _ hev')) _⟩

/-- Events are honest for a monitor of the trace if each of them is admitted after those before
it. -/
lemma honest_traceMonitor {Op : Type} {Res : Op → Type} {pre : List (Event Op Res) → Op → Prop}
    {admits : List (Event Op Res) → (o : Op) → Res o → Prop} {t u : List (Event Op Res)}
    (h : ∀ a ev b, u = a ++ ev :: b → admits (t ++ a) ev.op ev.res) :
    (traceMonitor pre admits).Honest t u := by
  induction u generalizing t with
  | nil => trivial
  | cons ev u ih =>
    have hfirst := h [] ev u rfl
    rw [List.append_nil] at hfirst
    refine ⟨hfirst, ih fun a d b hsplit => ?_⟩
    have hmore := h (ev :: a) d b (by simp [hsplit])
    rwa [← List.singleton_append, ← List.append_assoc] at hmore

/-- A monitor that admits every response finds every list of events honest. -/
lemma honest_of_forall {Op : Type} {Res : Op → Type} {γ : Type} {M : Monitor Op Res γ}
    (h : ∀ g o r, M.admits g o r) (g : γ) (t : List (Event Op Res)) : M.Honest g t :=
  honest_of_mem (fun ev _ g => h g ev.op ev.res) g

namespace Prog

variable {Op : Type} {Res : Op → Type} {α β γ : Type} {M : Monitor Op Res γ}

/-- A postcondition that always holds, under a monitor that accepts every call. -/
lemma wp_of_forall {Q : α → γ → Prop} (hpre : ∀ g o, M.pre g o) (hQ : ∀ a g, Q a g)
    (p : Prog Op Res α) (g : γ) : p.wp M Q g := by
  induction p generalizing g with
  | pure a => exact hQ a g
  | call o k ih => exact ⟨hpre g o, fun r _ => ih r _⟩

/-- A program that may call anything keeps a postcondition that always holds. -/
lemma wp_true (p : Prog Op Res α) (g : Unit) :
    p.wp (sendsOnly fun _ => True) (fun _ _ => True) g :=
  wp_of_forall (fun _ _ => trivial) (fun _ _ => trivial) p g

/-- A program only adds to its trace. -/
lemma wp_trace_extends (p : Prog Op Res α) (t : List (Event Op Res)) :
    p.wp (traceMonitor (fun _ _ => True) fun _ _ _ => True)
      (fun _ t' => ∃ rest, t' = t ++ rest) t := by
  induction p generalizing t with
  | pure a => exact ⟨[], (List.append_nil t).symm⟩
  | call o k ih =>
    refine ⟨trivial, fun r _ => wp_mono (ih r (t ++ [⟨o, r⟩])) ?_⟩
    rintro _ _ ⟨rest, rfl⟩
    exact ⟨⟨o, r⟩ :: rest, by simp⟩

/-- **Soundness for runs.** If the weakest precondition holds at the ghost state of the events
so far and the environment only gives admitted responses, then the events the run adds are
accepted and its result satisfies the postcondition at the ghost state they lead to.

**Proof sketch.** Induction on the program: a call contributes one event, whose precondition
is the first conjunct of the weakest precondition, and continues with an admitted response. -/
theorem wp_run (env : List (Event Op Res) → (o : Op) → Res o) {p : Prog Op Res α}
    {Q : α → γ → Prop} {g : γ} {t : List (Event Op Res)} (h : p.wp M Q (M.replay g t))
    (henv : ∀ t o, M.admits (M.replay g t) o (env t o)) :
    ∃ t', (p.run env t).2 = t ++ t' ∧ M.Accepts (M.replay g t) t' ∧
      Q (p.run env t).1 (M.replay g (t ++ t')) := by
  induction p generalizing t with
  | pure a => exact ⟨[], by simp [run], trivial, by simpa [run] using h⟩
  | call o k ih =>
    have hnext : M.replay g (t ++ [⟨o, env t o⟩]) = M.next (M.replay g t) o (env t o) := by
      simp [Monitor.replay]
    obtain ⟨t', ht, hacc, hQ⟩ := ih (env t o) (t := t ++ [⟨o, env t o⟩])
      (by rw [hnext]; exact h.2 _ (henv t o))
    rw [List.append_assoc, List.singleton_append] at ht hQ
    refine ⟨⟨o, env t o⟩ :: t', by rw [run, ht], ⟨h.1, ?_⟩, hQ⟩
    rw [hnext] at hacc
    exact hacc

/-- **Soundness for a run whose own answers are admitted**, whatever the environment would have
answered elsewhere.

**Proof sketch.** Induction on the program: its first call is the first event of the run. -/
theorem wp_run_honest (env : List (Event Op Res) → (o : Op) → Res o) {p : Prog Op Res α}
    {Q : α → γ → Prop} {g : γ} {t u : List (Event Op Res)} (h : p.wp M Q (M.replay g t))
    (hu : (p.run env t).2 = t ++ u) (hhonest : M.Honest (M.replay g t) u) :
    Q (p.run env t).1 (M.replay g (t ++ u)) := by
  induction p generalizing t u with
  | pure a =>
    obtain rfl : u = [] := by simpa [run] using hu
    simpa [run] using h
  | call o k ih =>
    obtain ⟨v, hv, -⟩ := wp_run (M := sendsOnly fun _ => True) (g := ())
      (t := t ++ [⟨o, env t o⟩]) (p := k (env t o)) (Q := fun _ _ => True) env
      (wp_true _ _) fun _ _ => trivial
    have hsplit : u = ⟨o, env t o⟩ :: v := by
      rw [run, hv, List.append_assoc, List.append_right_inj] at hu
      exact hu.symm
    subst hsplit
    have hnext : M.replay g (t ++ [⟨o, env t o⟩]) = M.next (M.replay g t) o (env t o) := by
      simp [Monitor.replay]
    have hrest := ih (env t o) (t := t ++ [⟨o, env t o⟩]) (u := v)
      (by rw [hnext]; exact h.2 _ hhonest.1) (by rw [hv]) (by rw [hnext]; exact hhonest.2)
    rw [List.append_assoc, List.singleton_append] at hrest
    exact hrest

/-- Soundness for the monitor that records the trace, from the empty trace. -/
theorem wp_run_trace (env : List (Event Op Res) → (o : Op) → Res o)
    {pre : List (Event Op Res) → Op → Prop}
    {admits : List (Event Op Res) → (o : Op) → Res o → Prop} {p : Prog Op Res α}
    {Q : α → List (Event Op Res) → Prop} (h : p.wp (traceMonitor pre admits) Q [])
    (henv : ∀ t o, admits t o (env t o)) :
    (∀ t₁ ev t₂, (p.run env []).2 = t₁ ++ ev :: t₂ → pre t₁ ev.op) ∧
      Q (p.run env []).1 (p.run env []).2 := by
  obtain ⟨t', ht, hacc, hQ⟩ := wp_run env (M := traceMonitor pre admits) (g := [])
    (t := []) (p := p) (Q := Q) h fun t o => by
      rw [replay_traceMonitor]
      exact henv t o
  simp only [List.nil_append, replay_traceMonitor] at ht hacc hQ
  refine ⟨fun t₁ ev t₂ heq => ?_, by rw [ht]; exact hQ⟩
  rw [ht] at heq
  subst heq
  have hpre := hacc.at
  rw [replay_traceMonitor] at hpre
  exact hpre

/-- **What holds under a monitor of the trace that admits every response** may be used under any
other one. -/
theorem wp_trace_and {pre pre' : List (Event Op Res) → Op → Prop}
    {admits : List (Event Op Res) → (o : Op) → Res o → Prop} {p : Prog Op Res α}
    {Q Q' : α → List (Event Op Res) → Prop} {t : List (Event Op Res)}
    (h : p.wp (traceMonitor pre admits) Q t)
    (h' : p.wp (traceMonitor pre' fun _ _ _ => True) Q' t) :
    p.wp (traceMonitor pre admits) (fun a t' => Q a t' ∧ Q' a t') t := by
  induction p generalizing t with
  | pure a => exact ⟨h, h'⟩
  | call o k ih => exact ⟨h.1, fun r hr => ih r (h.2 r hr) (h'.2 r trivial)⟩

/-- **A call of a run meets its precondition** if the responses before it were admitted, whatever
comes after it.

**Proof sketch.** Induction on the program: its first call is the first event of the run. -/
theorem wp_run_prefix (env : List (Event Op Res) → (o : Op) → Res o) {p : Prog Op Res α}
    {Q : α → γ → Prop} {g : γ} {t t₁ t₂ : List (Event Op Res)} {ev : Event Op Res}
    (h : p.wp M Q g) (hrun : (p.run env t).2 = t ++ (t₁ ++ ev :: t₂)) (hhonest : M.Honest g t₁) :
    M.pre (M.replay g t₁) ev.op := by
  induction p generalizing g t t₁ with
  | pure a => simp [run] at hrun
  | call o k ih =>
    obtain ⟨v, hv, -⟩ := wp_run (M := sendsOnly fun _ => True) (g := ())
      (t := t ++ [⟨o, env t o⟩]) (p := k (env t o)) (Q := fun _ _ => True) env
      (wp_true _ _) fun _ _ => trivial
    have hsplit : t₁ ++ ev :: t₂ = ⟨o, env t o⟩ :: v := by
      rw [run, hv, List.append_assoc, List.append_right_inj] at hrun
      exact hrun.symm
    cases t₁ with
    | nil =>
      cases hsplit
      exact h.1
    | cons d t₁ =>
      cases hsplit
      have hrest := ih (env t o) (h.2 (env t o) hhonest.1) hv
      exact hrest hhonest.2

/-- Every event of a run is answered as the environment answers it after the events before. -/
lemma run_res (env : List (Event Op Res) → (o : Op) → Res o) (p : Prog Op Res α)
    {t₁ t₂ : List (Event Op Res)} {ev : Event Op Res}
    (h : (p.run env []).2 = t₁ ++ ev :: t₂) : ev.res = env t₁ ev.op := by
  suffices hgen : ∀ t, (∀ a ev b, t = a ++ ev :: b → ev.res = env a ev.op) →
      ∀ a ev b, (p.run env t).2 = a ++ ev :: b → ev.res = env a ev.op from
    hgen [] (by simp) _ _ _ h
  clear h
  induction p with
  | pure a => exact fun t ht => ht
  | call o k ih =>
    intro t ht
    refine ih _ _ fun a ev b heq => ?_
    rcases List.eq_nil_or_concat b with rfl | ⟨b', e', rfl⟩
    · obtain ⟨rfl, hev⟩ := List.append_inj' heq rfl
      obtain rfl : (⟨o, env t o⟩ : Event Op Res) = ev := by simpa using hev
      rfl
    · rw [List.concat_eq_append, ← List.cons_append, ← List.append_assoc] at heq
      obtain ⟨hl, -⟩ := List.append_inj' heq rfl
      exact ht a ev b' hl

/-! ## Interpretation of one interface in another -/

variable {Op' : Type} {Res' : Op' → Type} {σ γ' : Type}

/-- **Interpretation**: every call of a program is answered by a program over the interface
`Op'`, which may keep a state `σ` between the calls. -/
def interp (f : σ → (o : Op) → Prog Op' Res' (Res o × σ)) :
    Prog Op Res α → σ → Prog Op' Res' (α × σ)
  | .pure a, s => .pure (a, s)
  | .call o k, s => (f s o).bind fun r => interp f (k r.1) r.2

/-- **Interpretation preserves weakest preconditions.** If `I g s g'` ties the ghost state of
the interpreted program, the interpreter's state and the ghost state of the target, and the
program answering each call keeps it, then the weakest precondition carries over.

**Proof sketch.** Induction on the program; a call is the rule of sequencing for the program
that answers it. -/
theorem wp_interp {M' : Monitor Op' Res' γ'} {I : γ → σ → γ' → Prop}
    {f : σ → (o : Op) → Prog Op' Res' (Res o × σ)}
    (hf : ∀ g s g' o, I g s g' → M.pre g o →
      (f s o).wp M' (fun r g'' => M.admits g o r.1 ∧ I (M.next g o r.1) r.2 g'') g')
    {p : Prog Op Res α} {Q : α → γ → Prop} {g : γ} {s : σ} {g' : γ'} (hI : I g s g')
    (h : p.wp M Q g) :
    (p.interp f s).wp M' (fun r g'' => ∃ g₁, I g₁ r.2 g'' ∧ Q r.1 g₁) g' := by
  induction p generalizing g s g' with
  | pure a => exact ⟨g, hI, h⟩
  | call o k ih =>
    rw [interp, wp_bind]
    refine wp_mono (hf g s g' o hI h.1) ?_
    rintro ⟨r, s'⟩ g'' ⟨hr, hI'⟩
    exact ih r hI' (h.2 r hr)

/-- **A weakest precondition survives a change of the monitor** that follows the same calls: `I`
ties the two ghost states, and each call keeps it. -/
theorem wp_simulate {M' : Monitor Op Res γ'} {I : γ → γ' → Prop}
    (hcall : ∀ g g' o, I g g' → M.pre g o →
      M'.pre g' o ∧ ∀ r, M'.admits g' o r → M.admits g o r ∧ I (M.next g o r) (M'.next g' o r))
    {p : Prog Op Res α} {Q : α → γ → Prop} {g : γ} {g' : γ'} (hI : I g g') (h : p.wp M Q g) :
    p.wp M' (fun a g'' => ∃ g₁, I g₁ g'' ∧ Q a g₁) g' := by
  induction p generalizing g g' with
  | pure a => exact ⟨g, hI, h⟩
  | call o k ih =>
    obtain ⟨hpre, hnext⟩ := hcall g g' o hI h.1
    refine ⟨hpre, fun r hr => ?_⟩
    obtain ⟨hadmits, hI'⟩ := hnext r hr
    exact ih r hI' (h.2 r hadmits)

/-! ## Programs over part of an interface -/

/-- **Embedding**: a program over some operations of a larger interface. -/
def embed (inj : Op → Op') : Prog Op (fun o => Res' (inj o)) α → Prog Op' Res' α
  | .pure a => .pure a
  | .call o k => .call (inj o) fun r => embed inj (k r)

end Prog

/-- A monitor of a larger interface, for the operations that are embedded in it. -/
def Monitor.pull {Op Op' : Type} {Res' : Op' → Type} {γ : Type} (M : Monitor Op' Res' γ)
    (inj : Op → Op') : Monitor Op (fun o => Res' (inj o)) γ where
  pre g o := M.pre g (inj o)
  admits g o r := M.admits g (inj o) r
  next g o r := M.next g (inj o) r

/-- The weakest precondition of an embedded program. -/
lemma Prog.wp_embed {Op Op' : Type} {Res' : Op' → Type} {α γ : Type} {M : Monitor Op' Res' γ}
    {inj : Op → Op'} (p : Prog Op (fun o => Res' (inj o)) α) (Q : α → γ → Prop) (g : γ) :
    (p.embed inj).wp M Q g ↔ p.wp (M.pull inj) Q g := by
  induction p generalizing g with
  | pure a => exact Iff.rfl
  | call o k ih => simp only [embed, wp_call, ih, Monitor.pull]
