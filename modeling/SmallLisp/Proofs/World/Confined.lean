import Mathlib.Tactic
import SmallLisp.Proofs.World.Reach
import SmallLisp.Proofs.World.Run

/-!
# Confined evaluations

An evaluation is confined to what can be reached from its form and its scope: it changes nothing
else, what it returns or raises leads nowhere else, and wherever this region holds the same it has
the same outcome and the same effect. Runs keep stores sound.
-/

namespace SmallLisp

namespace Eval

/-- The store that a computation leaves, whether it returns or stops. -/
def after {α : Type} (x : Eval α) (s : Store) : Store :=
  match x s with
  | .ok _ s' => s'
  | .error _ s' => s'

/-- The value that a computation returns or raises. -/
def carried? (x : Eval Value) (s : Store) : Option Value :=
  match x s with
  | .ok v _ => some v
  | .error (.fault (.raised v _)) _ => some v
  | .error _ _ => none

end Eval

open Eval

variable {root root' : ScopeId} {region region' : Kind → Nat → Prop} {e : Store.Effect}
  {s t : Store} {x y : Eval Value}

theorem Store.Change.mono {s' : Store} (h : Change region e s s')
    (hregion : ∀ k i, region k i → region' k i) : Change region' e s s' where
  count := h.count
  same hi hnot := h.same hi (mt (hregion _ _) hnot)
  output := h.output
  log := h.log
  logLevel := h.logLevel

/-- Counterparts in two runs: the places of a region are their own, and the places that the runs
make are those of each other in the order in which they are made. -/
def Counterpart (region : Kind → Nat → Prop) (made : Kind → Nat) (s t : Store) (k : Kind)
    (i j : Nat) : Prop :=
  i = j ∧ region k i ∨ ∃ n < made k, i = s.count k + n ∧ j = t.count k + n

/-- A computation is confined to a region of a store. -/
structure Confined (root : ScopeId) (region : Kind → Nat → Prop) (x : Eval Value) (s : Store) :
    Prop where
  /-- Places outside the region hold what they held. -/
  unchanged {k : Kind} {i : Nat} : i < s.count k → ¬ region k i → s.SameAt (x.after s) k i
  /-- What can be reached from the value returned or raised is in the region or new. -/
  reached {v : Value} {k : Kind} {i : Nat} : x.carried? s = some v →
    (x.after s).Reach root (v.Refers root) k i → region k i ∨ s.count k ≤ i
  /-- From a store that holds the same in the region the outcome and the effect are the same, and
  the stores that are left agree, up to the names of what is new. -/
  repeated {t : Store} : s.AgreesOn region t → ∃ e : Store.Effect,
    Store.Change region e s (x.after s) ∧ Store.Change region e t (x.after t) ∧
      let W : World root root := ⟨Counterpart region e.made s t, x.after s, x.after t⟩
      W.Agree ∧ W.Outcomes World.Matches (x s) (x t)

namespace World

variable {W W' : World root root'}

theorem Outcomes.after_eq (h : W.Outcomes Matches (x s) (y t)) :
    x.after s = W.left ∧ y.after t = W.right := by
  unfold Eval.after
  generalize x s = r, y t = r' at h
  cases h <;> exact ⟨rfl, rfl⟩

theorem Outcomes.carried (h : W.Outcomes Matches (x s) (y t)) {v : Value}
    (hv : x.carried? s = some v) : ∃ w, W.Matches v w := by
  unfold Eval.carried? at hv
  generalize x s = r, y t = r' at h hv
  cases h with
  | ok hvw =>
    obtain rfl := Option.some.inj hv
    exact ⟨_, hvw⟩
  | @error stop _ hstop =>
    cases hstop with
    | raised shown hvw =>
      obtain rfl := Option.some.inj hv
      exact ⟨_, hvw⟩
    | plain _ hplain =>
      rcases stop with cause | _ | _ | _
      · cases cause with
        | raised => exact hplain.elim
        | _ => cases hv
      all_goals cases hv

/-- What runs alike in the worlds of a region, in whichever store it holds the same, is confined to
it. -/
theorem confined_of_alike (hself : s.AgreesOn region s)
    (hagree : ∀ {t}, s.AgreesOn region t → (within root region s t).Agree)
    (halike : ∀ {t}, (within root region s t).Alike x x Matches) : Confined root region x s := by
  have hrun {t : Store} (ht : s.AgreesOn region t) : ∃ e : Store.Effect,
      Store.Change region e s (x.after s) ∧ Store.Change region e t (x.after t) ∧
        let W : World root root := ⟨Counterpart region e.made s t, x.after s, x.after t⟩
        W.Agree ∧ W.Outcomes Matches (x s) (x t) := by
    obtain ⟨W', ⟨e, he⟩, hW', (houtcomes : W'.Outcomes Matches (x s) (x t))⟩ := halike (hagree ht)
    obtain ⟨hleft, hright⟩ := houtcomes.after_eq
    have hpairs : W'.pairs = Counterpart region e.made s t := by
      funext k i j
      exact propext he.pairs_iff
    have hworld : W' = ⟨Counterpart region e.made s t, x.after s, x.after t⟩ := by
      rw [hleft, hright, ← hpairs]
    refine ⟨e, ?_, ?_, hworld ▸ hW', hworld ▸ houtcomes⟩
    · exact hleft ▸ he.left.mono fun k i ⟨_, _, hi⟩ => hi
    · exact hright ▸ he.right.mono fun k i ⟨j, hj, hi⟩ => hj ▸ hi
  constructor
  · intro k i hi hnot
    obtain ⟨e, hchange, -⟩ := hrun hself
    exact hchange.same hi hnot
  · intro v k i hv hreach
    obtain ⟨e, -, -, hW, houtcomes⟩ := hrun hself
    obtain ⟨w, hvw⟩ := houtcomes.carried hv
    obtain ⟨j, hij | ⟨n, -, rfl, -⟩⟩ := hW.paired_of_reach (fun h => hvw.refers h) hreach
    · exact .inl hij.2
    · exact .inr (Nat.le_add_right _ _)
  · exact hrun

/-- What runs alike in the world of all places leaves a sound store behind, in which all that the
value returned or raised refers to is in use. -/
theorem sound_of_alike (hs : s.Sound root)
    (halike : (within root (s.Reach root fun k i => i < s.count k) s s).Alike x x Matches) :
    (x.after s).Sound root ∧ ∀ v ∈ x.carried? s, (x.after s).Has root v := by
  have hagree := agree_within hs id hs.literal ⟨fun _ => .refl _ _ _, fun h => h.lt hs id⟩
  obtain ⟨W', ⟨e, he⟩, hW', (houtcomes : W'.Outcomes Matches (x s) (x s))⟩ := halike hagree
  rw [houtcomes.after_eq.1]
  constructor
  · refine hW'.sound_left fun {k i} hi => ?_
    rcases lt_or_ge i (s.count k) with hlt | hge
    · exact ⟨i, he.pairs_iff.2 (.inl ⟨rfl, .start hlt⟩)⟩
    · obtain ⟨n, rfl⟩ := Nat.exists_eq_add_of_le hge
      have hn : n < e.made k := Nat.lt_of_add_lt_add_left (he.left.count k ▸ hi)
      exact ⟨_, he.pairs_iff.2 (.inr ⟨n, hn, rfl, rfl⟩)⟩
  · intro v hv k i hrefers
    obtain ⟨w, hvw⟩ := houtcomes.carried hv
    obtain ⟨j, hij⟩ := hvw.refers hrefers
    exact hW'.left_lt hij

end World

/-- Where the evaluation of a text starts: with the scope and the literal NaN, which may be read. -/
def startIn (scope : ScopeId) (k : Kind) (i : Nat) : Prop :=
  k = .scope ∧ i = scope ∨ k = .object ∧ i = Value.literalNan

/-- Where the evaluation of a form starts: also with the places that the form refers to. -/
def startOf (root : ScopeId) (form : Value) (scope : ScopeId) (k : Kind) (i : Nat) : Prop :=
  form.Refers root k i ∨ startIn scope k i

theorem lt_count_of_startIn {scope : ScopeId} (hs : s.Sound root) (hscope : scope < s.scopes.size)
    {k : Kind} {i : Nat} (h : startIn scope k i) : i < s.count k := by
  rcases h with ⟨rfl, rfl⟩ | ⟨rfl, rfl⟩
  · exact hscope
  · exact hs.literal

theorem lt_count_of_startOf {form : Value} {scope : ScopeId} (hs : s.Sound root)
    (hform : s.Has root form) (hscope : scope < s.scopes.size) {k : Kind} {i : Nat}
    (h : startOf root form scope k i) : i < s.count k :=
  h.elim hform (lt_count_of_startIn hs hscope)

/-- Every evaluation is confined to what can be reached from its form and its scope. -/
theorem confined_runWith {form : Value} {scope : ScopeId} (hs : s.Sound root)
    (hform : s.Has root form) (hscope : scope < s.scopes.size) (passes room : Nat) :
    Confined root (s.Reach root (startOf root form scope))
      (runWith (rooted root) passes room (.eval form scope)) s := by
  have hstart {k : Kind} {i : Nat} (h : startOf root form scope k i) : i < s.count k :=
    lt_count_of_startOf hs hform hscope h
  refine World.confined_of_alike ⟨fun _ => .refl _ _ _, fun h => h.lt hs hstart⟩
    (World.agree_within hs hstart (.inr (.inr ⟨rfl, rfl⟩))) ?_
  refine World.alike_runWith root root passes room (.eval ?_ ⟨rfl, .start (.inr (.inl ⟨rfl, rfl⟩))⟩)
  exact World.matches_self fun h => ⟨rfl, .start (.inl h)⟩

/-- Every evaluation leaves a sound store behind, in which all that the value returned or raised
refers to is in use. -/
theorem sound_runWith {form : Value} {scope : ScopeId} (hs : s.Sound root)
    (hform : s.Has root form) (hscope : scope < s.scopes.size) (passes room : Nat) :
    let x := runWith (rooted root) passes room (.eval form scope)
    (x.after s).Sound root ∧ ∀ v ∈ x.carried? s, (x.after s).Has root v := by
  refine World.sound_of_alike hs ?_
  refine World.alike_runWith root root passes room (.eval ?_ ⟨rfl, .start hscope⟩)
  exact World.matches_self fun h => ⟨rfl, .start (hform h)⟩

end SmallLisp
