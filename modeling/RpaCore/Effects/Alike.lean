import Mathlib.Data.List.Forall2
import RpaCore.Effects.Proc

set_option relaxedAutoImplicit false
set_option autoImplicit false

/-!
# Programs that are alike

Some calls of a program are hidden: what they are answered must not show. Two programs are alike
when, whatever their hidden calls are answered, they make the same visible calls and end with
related results. This is a weak bisimulation on finite trees: hidden calls are stripped from either
side, one at a time, and a visible call is matched by the same call, up to some of its arguments.

## Main definitions

* `Likeness` — which visible calls are the same.
* `Prog.Alike` — two programs are alike.
* `silent` — the monitor of programs all of whose calls are hidden.
* `visible` — the visible events of a run.
* `Proc.Alike` — two procedures are alike from two states.

## Main results

* `Prog.Alike.bind`, `Prog.alike_of_silent`, `Prog.alike_refl` — the rules of sequencing, of hidden
  parts and of visible parts.
* `Prog.Alike.run` — programs that are alike have the same visible events.
-/

variable {Op : Type} {Res : Op → Type} {α β δ ε : Type}

/-- Which visible calls are the same, up to arguments that do not bear on what they return. -/
structure Likeness (Op : Type) (Res : Op → Type) where
  same : Op → Op → Prop
  refl : ∀ o, same o o
  res_eq : ∀ {o o'}, same o o' → Res o = Res o'

/-- Two events are the same call with the same answer. -/
def Likeness.Same (L : Likeness Op Res) (ev ev' : Event Op Res) : Prop :=
  ∃ h : L.same ev.op ev'.op, ev'.res = cast (L.res_eq h) ev.res

/-- The visible events among events. -/
def visible (hidden : Op → Bool) (t : List (Event Op Res)) : List (Event Op Res) :=
  t.filter fun ev => !hidden ev.op

/-- The monitor of programs all of whose calls are hidden, and answered in the expected way. -/
def silent (hidden : Op → Bool) (expected : (o : Op) → Res o → Prop) : Monitor Op Res Unit where
  pre _ o := hidden o = true
  admits _ o r := expected o r
  next _ _ _ := ()

namespace Prog

/-- **Two programs are alike** with results related by `R`, when the hidden calls are answered in
the expected way. -/
inductive Alike (L : Likeness Op Res) (hidden : Op → Bool) (expected : (o : Op) → Res o → Prop)
    (R : α → β → Prop) : Prog Op Res α → Prog Op Res β → Prop
  | pure {a : α} {b : β} (h : R a b) : Alike L hidden expected R (.pure a) (.pure b)
  | left {o : Op} {k : Res o → Prog Op Res α} {q : Prog Op Res β} (ho : hidden o = true)
      (h : ∀ r, expected o r → Alike L hidden expected R (k r) q) :
      Alike L hidden expected R (.call o k) q
  | right {o : Op} {p : Prog Op Res α} {k : Res o → Prog Op Res β} (ho : hidden o = true)
      (h : ∀ r, expected o r → Alike L hidden expected R p (k r)) :
      Alike L hidden expected R p (.call o k)
  | call {o o' : Op} {k : Res o → Prog Op Res α} {l : Res o' → Prog Op Res β}
      (ho : hidden o = false) (ho' : hidden o' = false) (hsame : L.same o o')
      (h : ∀ r, Alike L hidden expected R (k r) (l (cast (L.res_eq hsame) r))) :
      Alike L hidden expected R (.call o k) (.call o' l)

variable {L : Likeness Op Res} {hidden : Op → Bool} {expected : (o : Op) → Res o → Prop}
  {R : α → β → Prop}

/-- Sequencing: the continuations are alike on related results. -/
theorem Alike.bind {S : δ → ε → Prop} {p : Prog Op Res α} {q : Prog Op Res β}
    {f : α → Prog Op Res δ} {g : β → Prog Op Res ε} (h : Alike L hidden expected R p q)
    (hfg : ∀ a b, R a b → Alike L hidden expected S (f a) (g b)) :
    Alike L hidden expected S (p.bind f) (q.bind g) := by
  induction h with
  | pure h => exact hfg _ _ h
  | left ho _ ih => exact .left ho ih
  | right ho _ ih => exact .right ho ih
  | call ho ho' hsame _ ih => exact .call ho ho' hsame ih

/-- Parts whose calls are all hidden are alike, when their results are related. -/
theorem alike_of_silent {p : Prog Op Res α} {q : Prog Op Res β} {P : α → Unit → Prop}
    {Q : β → Unit → Prop} (hp : p.wp (silent hidden expected) P ())
    (hq : q.wp (silent hidden expected) Q ()) (hR : ∀ a b, P a () → Q b () → R a b) :
    Alike L hidden expected R p q := by
  induction p with
  | call o k ih => exact .left hp.1 fun r hr => ih r (hp.2 r hr)
  | pure a =>
    induction q with
    | call o k ih => exact .right hq.1 fun r hr => ih r (hq.2 r hr)
    | pure b => exact .pure (hR a b hp hq)

/-- A program whose calls are all visible is like itself. -/
theorem alike_refl {R : α → α → Prop} (hvisible : ∀ o, hidden o = false) (hR : ∀ a, R a a)
    (p : Prog Op Res α) : Alike L hidden expected R p p := by
  induction p with
  | pure a => exact .pure (hR a)
  | call o k ih => exact .call (hvisible o) (hvisible o) (L.refl o) ih

/-- Programs that are alike are so over a larger interface. -/
theorem Alike.embed {Op' : Type} {inj : Op' → Op} {expected' : (o : Op') → Res (inj o) → Prop}
    {L' : Likeness Op' fun o => Res (inj o)} {p : Prog Op' (fun o => Res (inj o)) α}
    {q : Prog Op' (fun o => Res (inj o)) β}
    (h : Alike L' (fun o => hidden (inj o)) expected' R p q)
    (hsame : ∀ o o', L'.same o o' → L.same (inj o) (inj o'))
    (hexpected : ∀ o r, expected (inj o) r → expected' o r) :
    Alike L hidden expected R (p.embed inj) (q.embed inj) := by
  induction h with
  | pure h => exact .pure h
  | left ho _ ih => exact .left ho fun r hr => ih r (hexpected _ r hr)
  | right ho _ ih => exact .right ho fun r hr => ih r (hexpected _ r hr)
  | call ho ho' h _ ih => exact .call ho ho' (hsame _ _ h) ih

/-- One more event. -/
lemma visible_concat (t : List (Event Op Res)) (ev : Event Op Res) :
    visible hidden (t ++ [ev]) =
      if hidden ev.op then visible hidden t else visible hidden t ++ [ev] := by
  unfold visible
  rw [List.filter_append]
  cases h : hidden ev.op with
  | false => simp [h]
  | true => simp [h]

/-- **Programs that are alike cannot be told apart.** In two environments that answer a visible call
alike after the same visible events, and hidden calls in the expected way, they have the same
visible events and related results.

**Proof sketch.** Induction on the likeness. A hidden call leaves the visible events as they are; a
visible call is the same on both sides, and is answered alike. -/
theorem Alike.run {p : Prog Op Res α} {q : Prog Op Res β} (h : Alike L hidden expected R p q)
    {env env' : List (Event Op Res) → (o : Op) → Res o}
    (hvisible : ∀ t u o o' (hsame : L.same o o'), hidden o = false →
      List.Forall₂ L.Same (visible hidden t) (visible hidden u) →
      env' u o' = cast (L.res_eq hsame) (env t o))
    (hexpected : ∀ t o, hidden o = true → expected o (env t o))
    (hexpected' : ∀ t o, hidden o = true → expected o (env' t o))
    {t u : List (Event Op Res)} (htu : List.Forall₂ L.Same (visible hidden t) (visible hidden u)) :
    R (p.run env t).1 (q.run env' u).1 ∧
      List.Forall₂ L.Same (visible hidden (p.run env t).2) (visible hidden (q.run env' u).2) := by
  induction h generalizing t u with
  | pure h => exact ⟨h, htu⟩
  | left ho _ ih =>
    refine ih _ (hexpected t _ ho) ?_
    rwa [visible_concat, if_pos ho]
  | right ho _ ih =>
    refine ih _ (hexpected' u _ ho) ?_
    rwa [visible_concat, if_pos ho]
  | @call o o' k l ho ho' hsame _ ih =>
    have hanswer := hvisible t u o o' hsame ho htu
    have hnext : List.Forall₂ L.Same (visible hidden (t ++ [⟨o, env t o⟩]))
        (visible hidden (u ++ [⟨o', env' u o'⟩])) := by
      rw [visible_concat, visible_concat, if_neg (by simp [ho]), if_neg (by simp [ho'])]
      exact List.rel_append htu (.cons ⟨hsame, hanswer⟩ .nil)
    have hrun := ih (env t o) hnext
    rwa [← hanswer] at hrun

end Prog

namespace Proc

variable {S E : Type} {L : Likeness Op Res} {hidden : Op → Bool}
  {expected : (o : Op) → Res o → Prop}

/-- Two ends of procedures are related: two returns by `Q`, and the same exception by `I`. -/
def SameEnd (Q : α → S → β → S → Prop) (I : S → S → Prop) :
    Except E α × S → Except E β × S → Prop
  | (.ok a, s), (.ok b, s') => Q a s b s'
  | (.error e, s), (.error e', s') => e = e' ∧ I s s'
  | _, _ => False

/-- Ends with equal results. -/
lemma SameEnd.eq {I : S → S → Prop} {x y : Except E α × S}
    (h : SameEnd (fun a s b s' => a = b ∧ I s s') I x y) : x.1 = y.1 ∧ I x.2 y.2 := by
  obtain ⟨e | a, s⟩ := x
  · obtain ⟨e' | b, s'⟩ := y
    · exact ⟨congrArg Except.error h.1, h.2⟩
    · exact h.elim
  · obtain ⟨e' | b, s'⟩ := y
    · exact h.elim
    · exact ⟨congrArg Except.ok h.1, h.2⟩

/-- **Two procedures are alike** from two states. -/
def Alike (L : Likeness Op Res) (hidden : Op → Bool) (expected : (o : Op) → Res o → Prop)
    (Q : α → S → β → S → Prop) (I : S → S → Prop) (p : Proc Op Res S E α)
    (q : Proc Op Res S E β) (s s' : S) : Prop :=
  Prog.Alike L hidden expected (SameEnd Q I) (p.start s) (q.start s')

variable {Q : α → S → β → S → Prop} {I : S → S → Prop} {s s' : S}

lemma alike_pure {a : α} {b : β} (h : Q a s b s') :
    Alike L hidden expected Q I (pure a : Proc Op Res S E α) (pure b) s s' := Prog.Alike.pure h

lemma alike_throw (e : E) (h : I s s') :
    Alike L hidden expected Q I (throw e : Proc Op Res S E α) (throw e) s s' :=
  Prog.Alike.pure ⟨rfl, h⟩

/-- Sequencing. -/
theorem Alike.bind {Q' : δ → S → ε → S → Prop} {p : Proc Op Res S E α} {q : Proc Op Res S E β}
    {f : α → Proc Op Res S E δ} {g : β → Proc Op Res S E ε}
    (h : Alike L hidden expected Q I p q s s')
    (hfg : ∀ a s b s', Q a s b s' → Alike L hidden expected Q' I (f a) (g b) s s') :
    Alike L hidden expected Q' I (p >>= f) (q >>= g) s s' := by
  unfold Alike
  rw [start_bind, start_bind]
  refine Prog.Alike.bind h ?_
  rintro ⟨e | a, s₁⟩ ⟨e' | b, s₂⟩ hab
  · exact .pure hab
  · exact hab.elim
  · exact hab.elim
  · exact hfg a s₁ b s₂ hab

/-- A visible call. -/
lemma alike_call {o o' : Op} (ho : hidden o = false) (ho' : hidden o' = false)
    (hsame : L.same o o') {Q : Res o → S → Res o' → S → Prop}
    (h : ∀ r, Q r s (cast (L.res_eq hsame) r) s') :
    Alike L hidden expected Q I (call o : Proc Op Res S E (Res o)) (call o') s s' :=
  .call ho ho' hsame fun r => .pure (h r)

/-- Reading the state. -/
lemma alike_get {f g : S → Proc Op Res S E α} {Q : α → S → α → S → Prop}
    (h : Alike L hidden expected Q I (f s) (g s') s s') :
    Alike L hidden expected Q I (get >>= f) (get >>= g) s s' := h

/-- Parts whose calls are all hidden, and which raise nothing. -/
theorem alike_of_silent {p : Proc Op Res S E α} {q : Proc Op Res S E β} {P : α → S → Prop}
    {P' : β → S → Prop}
    (hp : p.wp (silent hidden expected) (fun a s _ => P a s) (fun _ _ _ => False) s ())
    (hq : q.wp (silent hidden expected) (fun b s _ => P' b s) (fun _ _ _ => False) s' ())
    (hQ : ∀ a s b s', P a s → P' b s' → Q a s b s') :
    Alike L hidden expected Q I p q s s' := by
  refine Prog.alike_of_silent hp hq ?_
  rintro ⟨e | a, s₁⟩ ⟨e' | b, s₂⟩ ha hb
  · exact ha.elim
  · exact ha.elim
  · exact hb.elim
  · exact hQ a s₁ b s₂ ha hb

/-- A procedure whose calls are all visible is like itself. -/
theorem alike_refl {Q : α → S → α → S → Prop} (hvisible : ∀ o, hidden o = false)
    (hQ : ∀ a s, Q a s a s) (hI : ∀ s, I s s) (p : Proc Op Res S E α) :
    Alike L hidden expected Q I p p s s := by
  refine Prog.alike_refl hvisible ?_ (p.start s)
  rintro ⟨e | a, s'⟩
  · exact ⟨rfl, hI s'⟩
  · exact hQ a s'

/-- Procedures that are alike are so over a larger interface. -/
theorem Alike.embed {Op' : Type} (L : Likeness Op Res) (hidden : Op → Bool)
    (expected : (o : Op) → Res o → Prop) (inj : Op' → Op)
    {expected' : (o : Op') → Res (inj o) → Prop} {L' : Likeness Op' fun o => Res (inj o)}
    {p : Proc Op' (fun o => Res (inj o)) S E α} {q : Proc Op' (fun o => Res (inj o)) S E β}
    (h : Alike L' (fun o => hidden (inj o)) expected' Q I p q s s')
    (hsame : ∀ o o', L'.same o o' → L.same (inj o) (inj o'))
    (hexpected : ∀ o r, expected (inj o) r → expected' o r) :
    Alike L hidden expected Q I (p.embed inj) (q.embed inj) s s' :=
  Prog.Alike.embed h hsame hexpected

end Proc
