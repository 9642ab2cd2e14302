import RpaCore.Effects.Prog
import Mathlib.Data.List.Induction

set_option relaxedAutoImplicit false
set_option autoImplicit false

/-!
# The run behind an interpretation

A program whose calls are answered by programs over another interface still has runs of its own: one
that is answered as its interpretation answers it. So what holds of all runs of the program holds of
every interpretation of it. A run of the interpretation may also be cut off anywhere, within the
program of a call as well; what is seen of it up to there belongs to a first part of the run behind
it, as long as the program of a call shows nothing before it has come to its end.

## Main definitions

* `Prog.follow` — the interpreter after a list of calls.
* `Prog.project` — the environment that answers as the interpretation does.

## Main results

* `Prog.run_interp` — a run of the interpretation, by the run behind it.
* `Prog.follow_seen`, `Prog.follow_cut` — what is seen of it, also if it is cut off.
-/

namespace Prog

variable {Op Op' : Type} {Res : Op → Type} {Res' : Op' → Type} {σ α δ : Type}

/-- The interpreter after it has answered a list of calls: its state, and the events of the other
interface. -/
def follow (f : σ → (o : Op) → Prog Op' Res' (Res o × σ))
    (env : List (Event Op' Res') → (o : Op') → Res' o) (c : σ × List (Event Op' Res'))
    (t : List (Event Op Res)) : σ × List (Event Op' Res') :=
  t.foldl (fun c ev =>
    let answered := (f c.1 ev.op).run env c.2
    (answered.1.2, answered.2)) c

/-- **The environment that answers as the interpretation does.** -/
def project (f : σ → (o : Op) → Prog Op' Res' (Res o × σ))
    (env : List (Event Op' Res') → (o : Op') → Res' o) (c : σ × List (Event Op' Res'))
    (t : List (Event Op Res)) (o : Op) : Res o :=
  ((f (follow f env c t).1 o).run env (follow f env c t).2).1.1

variable {f : σ → (o : Op) → Prog Op' Res' (Res o × σ)}
  {env : List (Event Op' Res') → (o : Op') → Res' o} {c : σ × List (Event Op' Res')}

/-- One more call. -/
lemma follow_snoc (t : List (Event Op Res)) (ev : Event Op Res) :
    follow f env c (t ++ [ev]) =
      (((f (follow f env c t).1 ev.op).run env (follow f env c t).2).1.2,
        ((f (follow f env c t).1 ev.op).run env (follow f env c t).2).2) := by
  rw [follow, List.foldl_append]
  rfl

/-- **The run behind an interpretation**: it returns the same, and the interpreter has answered its
calls.

**Proof sketch.** Induction on the program; a call is answered by the run of its program. -/
theorem run_interp (p : Prog Op Res α) (t : List (Event Op Res)) :
    (p.interp f (follow f env c t).1).run env (follow f env c t).2 =
      (((p.run (project f env c) t).1, (follow f env c (p.run (project f env c) t).2).1),
        (follow f env c (p.run (project f env c) t).2).2) := by
  induction p generalizing t with
  | pure a => rfl
  | call o k ih =>
    have hnext := ih (project f env c t o) (t ++ [⟨o, project f env c t o⟩])
    rw [follow_snoc] at hnext
    rw [interp, run_bind, run]
    exact hnext

/-- A run only adds events. -/
lemma run_extends (env : List (Event Op Res) → (o : Op) → Res o) (p : Prog Op Res α)
    (t : List (Event Op Res)) : t <+: (p.run env t).2 := by
  induction p generalizing t with
  | pure a => exact List.prefix_rfl
  | call o k ih => exact (List.prefix_append t [⟨o, env t o⟩]).trans (ih _ _)

/-- What is seen of a run of the interpretation is what is seen of the run behind it, if the program
of a call shows what the call shows. -/
theorem follow_seen {seen : Event Op Res → Option δ} {seen' : Event Op' Res' → Option δ}
    (hdone : ∀ (c : σ × List (Event Op' Res')) (o : Op),
      (((f c.1 o).run env c.2).2).filterMap seen' =
        c.2.filterMap seen' ++ (seen ⟨o, ((f c.1 o).run env c.2).1.1⟩).toList)
    {t : List (Event Op Res)} (ht : ∀ a ev b, t = a ++ ev :: b → ev.res = project f env c a ev.op) :
    (follow f env c t).2.filterMap seen' = c.2.filterMap seen' ++ t.filterMap seen := by
  induction t using List.reverseRecOn with
  | nil => simp [follow]
  | append_singleton t ev ih =>
    have hbefore := ih fun a d b hab => ht a d (b ++ [ev]) (by simp [hab])
    have hres := ht t ev [] rfl
    have hself : ev = ⟨ev.op, project f env c t ev.op⟩ := by
      rw [← hres]
    rw [follow_snoc, hdone, hbefore, List.filterMap_append, List.append_assoc]
    congr 2
    rw [hself]
    cases hseen : seen ⟨ev.op, project f env c t ev.op⟩ <;> simp_all [project]

/-- **The run behind one that is cut off.** Of the events of either interface some are seen. If the
program of a call shows nothing at first, and what its call shows in the end, then what is seen of
a run that is cut off is what is seen of a first part of the run behind it.

**Proof sketch.** Induction on the calls from the last one on: the run is cut off before the last
call, or within its program. -/
theorem follow_cut {seen : Event Op Res → Option δ} {seen' : Event Op' Res' → Option δ}
    (hcall : ∀ (c : σ × List (Event Op' Res')) (o : Op) w,
      w <+: ((f c.1 o).run env c.2).2 → c.2 <+: w →
      w.filterMap seen' = c.2.filterMap seen' ∨
        w.filterMap seen' = c.2.filterMap seen' ++
          (seen ⟨o, ((f c.1 o).run env c.2).1.1⟩).toList)
    (hdone : ∀ (c : σ × List (Event Op' Res')) (o : Op),
      (((f c.1 o).run env c.2).2).filterMap seen' =
        c.2.filterMap seen' ++ (seen ⟨o, ((f c.1 o).run env c.2).1.1⟩).toList)
    {t : List (Event Op Res)} (ht : ∀ a ev b, t = a ++ ev :: b → ev.res = project f env c a ev.op)
    {w : List (Event Op' Res')} (hw : w <+: (follow f env c t).2) (hc : c.2 <+: w) :
    ∃ a, a <+: t ∧ w.filterMap seen' = c.2.filterMap seen' ++ a.filterMap seen := by
  induction t using List.reverseRecOn with
  | nil =>
    refine ⟨[], List.prefix_rfl, ?_⟩
    have hsame : w = c.2 := hw.eq_of_length_le hc.length_le
    simp [hsame]
  | append_singleton t ev ih =>
    have hbefore : ∀ a d b, t = a ++ d :: b → d.res = project f env c a d.op :=
      fun a d b hab => ht a d (b ++ [ev]) (by simp [hab])
    rcases List.prefix_or_prefix_of_prefix hw
      (show (follow f env c t).2 <+: (follow f env c (t ++ [ev])).2 by
        rw [follow_snoc]; exact run_extends env _ _) with hwithin | hbeyond
    · obtain ⟨a, ha, hseen⟩ := ih hbefore hwithin
      exact ⟨a, ha.trans (List.prefix_append _ _), hseen⟩
    · rw [follow_snoc] at hw
      rcases hcall _ _ _ hw hbeyond with hnone | hall
      · exact ⟨t, List.prefix_append _ _, hnone.trans (follow_seen hdone hbefore)⟩
      · refine ⟨t ++ [ev], List.prefix_rfl, ?_⟩
        rw [← follow_seen hdone ht, follow_snoc, hdone, hall]

end Prog
