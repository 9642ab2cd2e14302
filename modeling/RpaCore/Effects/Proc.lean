import RpaCore.Effects.Prog

set_option relaxedAutoImplicit false
set_option autoImplicit false

/-!
# Procedures with state and exceptions

Imperative code over an interface: a procedure reads and writes a state `S`, may raise an
exception of type `E`, which keeps the state as it stands, and may call the operations of the
interface. It is the standard stack of exceptions over state over `Prog`, so `do` notation,
`get`, `modify`, `throw` and `try` are the library's own.

## Main definitions

* `Proc` — procedures; `Proc.call` — one call of an operation.
* `Proc.wp` — the weakest precondition with one postcondition for a normal return and one for
  an exception.
* `Proc.attempt` — a procedure that hands on how another one ended.
* `Proc.Keeps` — a procedure that keeps an invariant, whichever way it ends.

## Main results

* `Proc.wp_bind`, `Proc.wp_call`, `Proc.wp_modify`, `Proc.wp_throw`, `Proc.wp_tryCatch`, … —
  one rule for each construct, as simplification lemmas.
* `Proc.wp_mono` — the rule of consequence.
* `Proc.keeps_bind`, `Proc.keeps_call`, … — the same rules for invariants.
-/

/-- A procedure: it may read and write a state `S`, raise an `E` and call operations. -/
abbrev Proc (Op : Type) (Res : Op → Type) (S E : Type) : Type → Type :=
  ExceptT E (StateT S (Prog Op Res))

namespace Proc

variable {Op : Type} {Res : Op → Type} {S E α β γ : Type}

/-- The program of a procedure started in a state: it ends with a return or an exception, and
the state it leaves. -/
def start (p : Proc Op Res S E α) (s : S) : Prog Op Res (Except E α × S) := p s

/-- One call of an operation. -/
def call (o : Op) : Proc Op Res S E (Res o) :=
  fun s => Prog.call o fun r => Prog.pure (Except.ok r, s)

/-- A computed value, or the exception its computation raised. -/
def ofExcept : Except E α → Proc Op Res S E α
  | .ok a => pure a
  | .error e => throw e

/-- The postcondition of the program of a procedure, from one for a return and one for an
exception. -/
def post (Q : α → S → γ → Prop) (R : E → S → γ → Prop) : Except E α × S → γ → Prop
  | (.ok a, s), g => Q a s g
  | (.error e, s), g => R e s g

/-- **Weakest precondition of a procedure**: every call meets its precondition, a return
satisfies `Q` and an exception satisfies `R`. -/
def wp (M : Monitor Op Res γ) (p : Proc Op Res S E α) (Q : α → S → γ → Prop)
    (R : E → S → γ → Prop) (s : S) (g : γ) : Prop :=
  (p.start s).wp M (post Q R) g

variable {M : Monitor Op Res γ} {Q : α → S → γ → Prop} {R : E → S → γ → Prop} {s : S} {g : γ}

/-- The rule of consequence. -/
lemma wp_mono {p : Proc Op Res S E α} {Q' : α → S → γ → Prop} {R' : E → S → γ → Prop}
    (h : p.wp M Q R s g) (hQ : ∀ a s' g', Q a s' g' → Q' a s' g')
    (hR : ∀ e s' g', R e s' g' → R' e s' g') : p.wp M Q' R' s g := by
  refine Prog.wp_mono h ?_
  rintro ⟨_ | _, s'⟩ g' hp
  · exact hR _ _ _ hp
  · exact hQ _ _ _ hp

/-- A returned value. -/
@[simp] lemma wp_pure (a : α) : (pure a : Proc Op Res S E α).wp M Q R s g ↔ Q a s g := Iff.rfl

/-- The program of a sequence. -/
lemma start_bind (p : Proc Op Res S E β) (f : β → Proc Op Res S E α) (s : S) :
    (p >>= f).start s = (p.start s).bind fun r =>
      match r with
      | (.ok b, s') => (f b).start s'
      | (.error e, s') => Prog.pure (Except.error e, s') := by
  change Prog.bind (p s) _ = Prog.bind (p s) _
  congr 1
  funext r
  rcases r with ⟨_ | _, s'⟩ <;> rfl

/-- The program of code that begins by reading the state. -/
lemma start_get_bind (f : S → Proc Op Res S E α) (s : S) : (get >>= f).start s = (f s).start s := by
  rw [start_bind]
  rfl

/-- The program of code that begins by updating the state. -/
lemma start_modify_bind (u : S → S) (f : PUnit → Proc Op Res S E α) (s : S) :
    (modify u >>= f).start s = (f ⟨⟩).start (u s) := by
  rw [start_bind]
  rfl

/-- Sequencing. -/
@[simp] lemma wp_bind (p : Proc Op Res S E β) (f : β → Proc Op Res S E α) :
    (p >>= f).wp M Q R s g ↔ p.wp M (fun b s' g' => (f b).wp M Q R s' g') R s g := by
  rw [wp, start_bind, Prog.wp_bind]
  constructor
  · intro hp
    refine Prog.wp_mono hp ?_
    rintro ⟨_ | _, s'⟩ g' hr <;> exact hr
  · intro hp
    refine Prog.wp_mono hp ?_
    rintro ⟨_ | _, s'⟩ g' hr <;> exact hr

/-- One call: the precondition now, the postcondition for every admitted response. -/
@[simp] lemma wp_call (o : Op) {Q : Res o → S → γ → Prop} :
    (call o : Proc Op Res S E (Res o)).wp M Q R s g ↔
      M.pre g o ∧ ∀ r, M.admits g o r → Q r s (M.next g o r) := Iff.rfl

/-- Reading the state. -/
@[simp] lemma wp_get {Q : S → S → γ → Prop} :
    (get : Proc Op Res S E S).wp M Q R s g ↔ Q s s g := Iff.rfl

/-- Writing the state. -/
@[simp] lemma wp_set (s₁ : S) {Q : PUnit → S → γ → Prop} :
    (set s₁ : Proc Op Res S E PUnit).wp M Q R s g ↔ Q ⟨⟩ s₁ g := Iff.rfl

/-- Updating the state. -/
@[simp] lemma wp_modify (f : S → S) {Q : PUnit → S → γ → Prop} :
    (modify f : Proc Op Res S E PUnit).wp M Q R s g ↔ Q ⟨⟩ (f s) g := Iff.rfl

/-- Raising an exception. -/
@[simp] lemma wp_throw (e : E) : (throw e : Proc Op Res S E α).wp M Q R s g ↔ R e s g := Iff.rfl

/-- A computed value. -/
@[simp] lemma wp_ofExcept (x : Except E α) : (ofExcept x : Proc Op Res S E α).wp M Q R s g ↔
    match x with
    | .ok a => Q a s g
    | .error e => R e s g := by
  cases x <;> exact Iff.rfl

/-- Handling an exception: the handler starts in the state the exception left. -/
@[simp] lemma wp_tryCatch (p : Proc Op Res S E α) (h : E → Proc Op Res S E α) :
    (tryCatch p h).wp M Q R s g ↔ p.wp M Q (fun e s' g' => (h e).wp M Q R s' g') s g := by
  have hs : (tryCatch p h : Proc Op Res S E α).start s = (p.start s).bind fun r =>
      match r with
      | (.ok a, s') => Prog.pure (Except.ok a, s')
      | (.error e, s') => (h e).start s' := by
    change Prog.bind (p s) _ = Prog.bind (p s) _
    congr 1
    funext r
    rcases r with ⟨_ | _, s'⟩ <;> rfl
  rw [wp, hs, Prog.wp_bind]
  constructor
  · intro hp
    refine Prog.wp_mono hp ?_
    rintro ⟨_ | _, s'⟩ g' hr <;> exact hr
  · intro hp
    refine Prog.wp_mono hp ?_
    rintro ⟨_ | _, s'⟩ g' hr <;> exact hr

/-- A conditional. -/
lemma wp_ite {c : Prop} [Decidable c] {p q : Proc Op Res S E α}
    (hp : c → p.wp M Q R s g) (hq : ¬ c → q.wp M Q R s g) :
    (if c then p else q : Proc Op Res S E α).wp M Q R s g := by
  split
  · exact hp ‹_›
  · exact hq ‹_›

/-- A procedure that hands on its outcome: what it returned, or the exception it raised. -/
def attempt (p : Proc Op Res S E α) : Proc Op Res S E (Except E α) :=
  fun s => (p.start s).bind fun r => Prog.pure (Except.ok r.1, r.2)

/-- The outcome of a procedure is handed on in the state it left. -/
@[simp] lemma wp_attempt (p : Proc Op Res S E α) {Q : Except E α → S → γ → Prop} :
    (attempt p).wp M Q R s g ↔
      p.wp M (fun a => Q (Except.ok a)) (fun e => Q (Except.error e)) s g := by
  rw [wp, start, attempt, Prog.wp_bind]
  constructor
  · intro hp
    refine Prog.wp_mono hp ?_
    rintro ⟨_ | _, s'⟩ g' hr <;> exact hr
  · intro hp
    refine Prog.wp_mono hp ?_
    rintro ⟨_ | _, s'⟩ g' hr <;> exact hr

/-- What holds under a monitor of the trace that admits every response may be used under any other
one. -/
lemma wp_trace_and {p : Proc Op Res S E α} {pre pre' : List (Event Op Res) → Op → Prop}
    {admits : List (Event Op Res) → (o : Op) → Res o → Prop}
    {Q Q' : α → S → List (Event Op Res) → Prop} {R R' : E → S → List (Event Op Res) → Prop}
    {t : List (Event Op Res)} (h : p.wp (traceMonitor pre admits) Q R s t)
    (h' : p.wp (traceMonitor pre' fun _ _ _ => True) Q' R' s t) :
    p.wp (traceMonitor pre admits) (fun a s' t' => Q a s' t' ∧ Q' a s' t')
      (fun e s' t' => R e s' t' ∧ R' e s' t') s t := by
  refine Prog.wp_mono (Prog.wp_trace_and h h') ?_
  rintro ⟨_ | _, s'⟩ t' hboth <;> exact hboth

/-- A procedure over some operations of a larger interface. -/
def embed {Op' : Type} {Res' : Op' → Type} (inj : Op → Op')
    (p : Proc Op (fun o => Res' (inj o)) S E α) : Proc Op' Res' S E α :=
  fun s => (p.start s).embed inj

/-- The weakest precondition of an embedded procedure. -/
@[simp] lemma wp_embed {Op' : Type} {Res' : Op' → Type} {M : Monitor Op' Res' γ} {inj : Op → Op'}
    (p : Proc Op (fun o => Res' (inj o)) S E α) :
    (p.embed inj).wp M Q R s g ↔ p.wp (M.pull inj) Q R s g :=
  Prog.wp_embed (p.start s) _ g

/-! ## Invariants -/

/-- **A procedure keeps an invariant** of its state and the ghost state, whichever way it ends. -/
def Keeps (M : Monitor Op Res γ) (I : S → γ → Prop) (p : Proc Op Res S E α) : Prop :=
  ∀ s g, I s g → p.wp M (fun _ => I) (fun _ => I) s g

variable {I : S → γ → Prop}

/-- A returned value. -/
lemma keeps_pure (a : α) : Keeps M I (pure a : Proc Op Res S E α) := fun _ _ h => h

/-- An exception. -/
lemma keeps_throw (e : E) : Keeps M I (throw e : Proc Op Res S E α) := fun _ _ h => h

/-- A computed value. -/
lemma keeps_ofExcept (x : Except E α) : Keeps M I (ofExcept x : Proc Op Res S E α) := by
  intro s g h
  cases x with
  | ok a => exact h
  | error e => exact h

/-- A call whose answers keep the invariant. -/
lemma keeps_call {o : Op}
    (h : ∀ s g, I s g → M.pre g o ∧ ∀ r, M.admits g o r → I s (M.next g o r)) :
    Keeps M I (call o : Proc Op Res S E (Res o)) := h

/-- An update of the state that keeps it. -/
lemma keeps_modify {f : S → S} (h : ∀ s g, I s g → I (f s) g) :
    Keeps M I (modify f : Proc Op Res S E PUnit) := h

/-- Sequencing. -/
lemma keeps_bind {p : Proc Op Res S E β} {f : β → Proc Op Res S E α} (hp : Keeps M I p)
    (hf : ∀ b, Keeps M I (f b)) : Keeps M I (p >>= f) := by
  intro s g h
  rw [wp_bind]
  exact wp_mono (hp s g h) (fun b s' g' h' => hf b s' g' h') fun _ _ _ h' => h'

/-- Reading the state. -/
lemma keeps_get {f : S → Proc Op Res S E α} (h : ∀ s, Keeps M I (f s)) :
    Keeps M I (get >>= f) :=
  keeps_bind (fun _ _ h => h) h

/-- Handling an exception. -/
lemma keeps_tryCatch {p : Proc Op Res S E α} {f : E → Proc Op Res S E α} (hp : Keeps M I p)
    (hf : ∀ e, Keeps M I (f e)) : Keeps M I (tryCatch p f) := by
  intro s g h
  rw [wp_tryCatch]
  exact wp_mono (hp s g h) (fun _ _ _ h' => h') fun e s' g' h' => hf e s' g' h'

/-- A conditional. -/
lemma keeps_ite {c : Prop} [Decidable c] {p q : Proc Op Res S E α} (hp : Keeps M I p)
    (hq : Keeps M I q) : Keeps M I (if c then p else q) := by
  split
  · exact hp
  · exact hq

end Proc
