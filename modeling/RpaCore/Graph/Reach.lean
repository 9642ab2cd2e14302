import Mathlib.Data.Set.Card
import Mathlib.Data.Fintype.Basic
import Mathlib.Logic.Relation
import Mathlib.Order.WellFounded
import Mathlib.Tactic.Common

set_option relaxedAutoImplicit false
set_option autoImplicit false

/-!
# Cycles that can be reached

A relation on a finite type, read as the edges of a graph: what can be reached from a vertex, and
when a walk from it must end.

## Main definitions

* `AcyclicFrom` — no vertex that can be reached lies on a cycle.
* `ClearOf` — nothing that can be reached lies in a set of vertices.

## Main results

* `acyclicFrom_iff_acc` — in a finite graph, walks from a vertex end iff no cycle can be reached.
* `clear_insert_iff` — the set may grow by the vertex that a walk leaves behind.
-/

open Relation

variable {V : Type}

/-- No vertex that can be reached from `v` lies on a cycle. -/
def AcyclicFrom (r : V → V → Prop) (v : V) : Prop :=
  ∀ w, ReflTransGen r v w → ¬ TransGen r w w

/-- Nothing that can be reached from `v` lies in `s`. -/
def ClearOf (r : V → V → Prop) (s : Set V) (v : V) : Prop :=
  ∀ w, ReflTransGen r v w → w ∉ s

section Cycles

variable {r : V → V → Prop} {v w : V}

/-- From a later vertex. -/
lemma AcyclicFrom.reach (h : AcyclicFrom r v) (hvw : ReflTransGen r v w) : AcyclicFrom r w :=
  fun x hx => h x (hvw.trans hx)

/-- The first vertex of a walk that must end is not reached again. -/
lemma AcyclicFrom.not_reach (h : AcyclicFrom r v) (hvw : r v w) : ¬ ReflTransGen r w v :=
  fun hwv => h v .refl (TransGen.head' hvw hwv)

/-- From the first vertex of all edges. -/
lemma acyclicFrom_iff :
    AcyclicFrom r v ↔ (∀ w, r v w → AcyclicFrom r w) ∧ ∀ w, r v w → ¬ ReflTransGen r w v := by
  refine ⟨fun h => ⟨fun w hw => h.reach (.single hw), fun w hw => h.not_reach hw⟩, ?_⟩
  rintro ⟨hnext, hback⟩ x hx hcycle
  rcases hx.cases_head with rfl | ⟨w, hw, hwx⟩
  · obtain ⟨w, hw, hwv⟩ := TransGen.head'_iff.mp hcycle
    exact hback w hw hwv
  · exact hnext w hw x hwx hcycle

/-- A walk that must end does not come back. -/
lemma Acc.not_transGen (h : Acc (flip r) v) : ¬ TransGen r v v := by
  induction h with
  | intro v _ ih =>
    intro hcycle
    obtain ⟨w, hw, hwv⟩ := TransGen.head'_iff.mp hcycle
    exact ih w hw (TransGen.tail' hwv hw)

/-- **Walks from a vertex of a finite graph end** iff no cycle can be reached.

**Proof sketch.** Without cycles, a step loses a vertex that can still be reached. -/
theorem acyclicFrom_iff_acc [Finite V] : AcyclicFrom r v ↔ Acc (flip r) v := by
  constructor
  · intro h
    generalize hn : {w | TransGen r v w}.ncard = n
    induction n using Nat.strong_induction_on generalizing v with
    | _ n ih =>
      refine .intro v fun w (hw : r v w) => ih _ ?_ (h.reach (.single hw)) rfl
      rw [← hn]
      refine Set.ncard_lt_ncard ⟨fun x hx => TransGen.head hw hx, fun hsub => ?_⟩
        (Set.toFinite _)
      exact h w (.single hw) (hsub (TransGen.single hw))
  · intro h w hw
    have hacc : Acc (flip r) w := by
      induction hw with
      | refl => exact h
      | tail _ hstep ih => exact ih.inv hstep
    exact hacc.not_transGen

/-- What can be reached from a vertex that is not in the set, by its first step. -/
lemma clear_iff {s : Set V} : ClearOf r s v ↔ v ∉ s ∧ ∀ w, r v w → ClearOf r s w := by
  refine ⟨fun h => ⟨h v .refl, fun w hw x hx => h x (.head hw hx)⟩, ?_⟩
  rintro ⟨hv, hnext⟩ x hx
  rcases hx.cases_head with rfl | ⟨w, hw, hwx⟩
  · exact hv
  · exact hnext w hw x hwx

/-- **The set may grow by a vertex** that is not reached. -/
lemma clear_insert_iff {s : Set V} :
    ClearOf r (insert w s) v ↔ ClearOf r s v ∧ ¬ ReflTransGen r v w := by
  constructor
  · intro h
    exact ⟨fun x hx hmem => h x hx (Set.mem_insert_of_mem w hmem),
      fun hw => h w hw (Set.mem_insert w s)⟩
  · rintro ⟨h, hw⟩ x hx hmem
    rcases Set.mem_insert_iff.mp hmem with rfl | hmem
    · exact hw hx
    · exact h x hx hmem

end Cycles
