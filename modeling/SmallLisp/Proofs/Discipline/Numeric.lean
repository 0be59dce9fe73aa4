import Mathlib.Tactic
import SmallLisp.Numeric.Run
import SmallLisp.Proofs.Discipline.Core

/-!
# Numeric functions keep a discipline

Most numeric functions return numbers and truth values. The others choose one of their items or
repeat them.
-/

namespace SmallLisp

namespace Discipline

open Eval

variable {D : Discipline} {s : Store} {args : List Value}

/-- What a computation without a store returns, if it returns. -/
def Yields {ε α : Type} (P : α → Prop) (x : Except ε α) : Prop := ∀ a, x = .ok a → P a

section

variable {ε α β : Type} {P : α → Prop} {Q : β → Prop}

theorem Yields.ok {a : α} (h : P a) : Yields P (.ok a : Except ε α) := by
  intro a' ha'
  exact Except.ok.inj ha' ▸ h

theorem Yields.error (fault : ε) : Yields P (.error fault : Except ε α) := by
  intro a ha
  cases ha

theorem Yields.bind {x : Except ε α} {f : α → Except ε β} (hx : Yields P x)
    (hf : ∀ a, P a → Yields Q (f a)) : Yields Q (x >>= f) := by
  intro b hb
  cases x with
  | ok a => exact hf a (hx a rfl) b hb
  | error fault => cases hb

theorem yields_true (x : Except ε α) : Yields (fun _ => True) x := fun _ _ => trivial

theorem yields_map {f : α → β} (hf : ∀ a, Q (f a)) (x : Except ε α) : Yields Q (f <$> x) :=
  (yields_true x).bind fun a _ => .ok (hf a)

end

def OutcomeHolds (D : Discipline) (s : Store) : Outcome → Prop
  | .value v => D.Holds s v
  | .items vs => D.AllHold s vs
  | _ => True

theorem keeps_outcome {outcome : Outcome} (h : D.OutcomeHolds s outcome) :
    D.Keeps s outcome.toValue D.Holds := by
  cases outcome with
  | value v => exact keeps_pure h
  | number n => exact keeps_ofNumber n
  | pair first second =>
    apply (keeps_ofNumber_number first).bind
    intro a s₁ _ ha
    apply (keeps_ofNumber_number second).bind
    intro b s₂ hs₂ hb
    apply keeps_fresh.bind
    intro id s₃ hs₃ _
    exact keeps_pure (.pair ((ha.1.later hs₂).later hs₃) (hb.1.later hs₃)
      (D.pairs_ok ha.2 hb.2))
  | items vs => exact keeps_newList h

theorem yields_unary (f : Numeric) {g : Value → Except HostFault Outcome}
    (hg : f.unary? = some g) (v : Value) : Yields (D.OutcomeHolds s) (g v) := by
  have hfrexp : Yields (D.OutcomeHolds s) (Elementary.frexp v) := by
    refine (yields_true _).bind fun d _ => ?_
    cases d <;> exact .ok trivial
  have hmodf : Yields (D.OutcomeHolds s) (Elementary.modf v) := by
    refine (yields_true _).bind fun d _ => ?_
    cases d <;> exact .ok trivial
  cases f <;> cases hg <;>
    first
      | exact hfrexp
      | exact hmodf
      | exact yields_map (fun _ => trivial) _
      | exact (yields_true _).bind fun _ _ => .ok (.bool _)

theorem yields_binary (f : Numeric) {g : Value → Value → Except HostFault Outcome}
    (hg : f.binary? = some g) (v w : Value) : Yields (D.OutcomeHolds s) (g v w) := by
  cases f <;> cases hg <;> exact yields_map (fun _ => trivial) _

theorem yields_round (args : List Value) :
    Yields (D.OutcomeHolds s) (Integral.round args) := by
  unfold Integral.round
  split
  · split
    · exact .ok trivial
    · exact (yields_true _).bind fun _ _ => .ok trivial
    · exact (yields_true _).bind fun _ _ => .ok trivial
    · exact .error _
  · split
    · exact (yields_true _).bind fun _ _ => .ok trivial
    · refine (yields_true _).bind fun places _ => ?_
      dsimp only
      split_ifs
      · exact .error _
      · exact .ok trivial
    · exact (yields_true _).bind fun _ _ => .ok trivial
    · exact .error _
  all_goals exact .error _

theorem yields_toItems {v : Value} (h : D.Holds s v) : Yields (D.AllHold s) v.toItems := by
  unfold Value.toItems
  split
  · apply Yields.ok
    intro item hitem
    obtain ⟨c, -, rfl⟩ := List.mem_map.1 hitem
    exact .str _
  · cases h with
    | map hkeys _ _ _ =>
      apply Yields.ok
      intro item hitem
      obtain ⟨entry, hentry, rfl⟩ := List.mem_map.1 hitem
      exact hkeys entry hentry
  · cases h with
    | pair hfirst hsecond _ =>
      exact .ok (List.forall_mem_cons.2 ⟨hfirst, List.forall_mem_singleton.2 hsecond⟩)
  · split
    · next items hitems => exact .ok (h.sequence hitems)
    · exact .error _

theorem yields_extreme (op : Comparison) {best : Value} {items : List Value}
    (hbest : D.Holds s best) (hitems : D.AllHold s items) :
    Yields (D.Holds s) (op.extreme best items) := by
  induction items generalizing best with
  | nil => exact .ok hbest
  | cons item rest ih =>
    have hitems := List.forall_mem_cons.1 hitems
    refine (yields_true _).bind fun holds _ => ?_
    split_ifs
    · exact ih hitems.1 hitems.2
    · exact ih hbest hitems.2

theorem yields_choose (op : Comparison) (function : String) (h : D.AllHold s args) :
    Yields (D.Holds s) (op.choose function args) := by
  unfold Comparison.choose
  split
  · exact .error _
  · refine (yields_toItems (List.forall_mem_singleton.1 h)).bind fun items hitems => ?_
    split
    · exact .error _
    · have hitems := List.forall_mem_cons.1 hitems
      exact yields_extreme op hitems.1 hitems.2
  · have h := List.forall_mem_cons.1 h
    exact yields_extreme op h.1 h.2

theorem yields_repeatText (count : ℤ) (text : String) :
    Yields (D.OutcomeHolds s) (Aggregate.repeatText count text) :=
  (yields_true _).bind fun _ _ => .ok (.str _)

theorem yields_repeatItems (count : ℤ) {vs : List Value} (h : D.AllHold s vs) :
    Yields (D.OutcomeHolds s) (Aggregate.repeatItems count vs) := by
  refine (yields_true _).bind fun count _ => .ok fun v hv => ?_
  obtain ⟨items, hitems, hv⟩ := List.mem_flatten.1 hv
  exact h v (List.eq_of_mem_replicate hitems ▸ hv)

theorem yields_times {product : Outcome} {v : Value} (hproduct : D.OutcomeHolds s product)
    (hv : D.Holds s v) : Yields (D.OutcomeHolds s) (Aggregate.times product v) := by
  unfold Aggregate.times
  split
  · exact (yields_true _).bind fun _ _ => .ok trivial
  · unfold Aggregate.timesOther
    split
    · exact yields_repeatText _ _
    · next items hitems => exact yields_repeatItems _ (hv.sequence hitems)
    all_goals exact .error _
  · exact yields_repeatText _ _
  · exact yields_repeatItems _ hproduct
  · exact .error _

theorem yields_prod (h : D.AllHold s args) : Yields (D.OutcomeHolds s) (Aggregate.prod args) := by
  unfold Aggregate.prod
  split
  · refine (yields_toItems (List.forall_mem_singleton.1 h)).bind fun items hitems => ?_
    have hone : D.OutcomeHolds s (.int 1) := trivial
    generalize Outcome.int 1 = product at hone
    induction items generalizing product with
    | nil => exact .ok hone
    | cons item rest ih =>
      have hitems := List.forall_mem_cons.1 hitems
      rw [List.foldlM_cons]
      exact (yields_times hone hitems.1).bind fun product hproduct => ih hitems.2 product hproduct
  all_goals exact .error _

theorem yields_apply (f : Numeric) (h : D.AllHold s args) :
    Yields (D.OutcomeHolds s) (f.apply args) := by
  unfold Numeric.apply
  split
  · exact yields_map (fun _ => trivial) _
  · exact yields_map (fun _ => trivial) _
  · exact yields_map (fun _ => trivial) _
  · exact yields_map (fun _ => trivial) _
  · exact yields_map (fun _ => trivial) _
  · exact yields_prod h
  · split
    · exact yields_map (fun _ => .bool _) _
    all_goals exact .error _
  · refine (yields_true _).bind fun v _ => ?_
    split
    · exact .ok trivial
    · exact .error _
  · exact yields_round args
  · exact (yields_choose .greater "max" h).bind fun v hv => .ok hv
  · exact (yields_choose .less "min" h).bind fun v hv => .ok hv
  · split
    · next g _ hg => exact (yields_true _).bind fun v _ => yields_unary _ hg v
    · next g _ hg => exact (yields_true _).bind fun pair _ => yields_binary _ hg pair.1 pair.2
    · exact .error _

theorem keeps_numeric (f : Numeric) (h : D.AllHold s args) :
    D.Keeps s (f.run args) D.Holds := by
  unfold Numeric.run
  cases happly : f.apply args with
  | ok outcome => exact keeps_outcome (yields_apply f h outcome happly)
  | error fault => exact keeps_throw trivial

end Discipline

end SmallLisp
