import Mathlib.Data.ENat.Lattice
import Mathlib.Tactic
import SmallLisp.Proofs.Eval.Trampoline

/-!
# The depth of a run

An activation is live until it is done, and while a nested activation is at work so are all those
that it is nested in. The depth of a run is the largest number of activations that are live at
once. It is at most `room + 1` when the run has no use for an activation beyond that room, that is,
when it ends alike whatever such activations would do: they could stop it, so that it starts none.

A pass that hands back a job leaves nothing behind that is live. The depth of the run is then the
larger one of the depth of this pass and the depth of the job that is left, not their sum.
-/

namespace SmallLisp.Eval

variable {α : Type} {s s' : Store} {passes room room' : Nat} {job job' : Job}

/-- Do a job as `run` does, with activations of one's own choice beyond the room. -/
def runOver (beyond : Nested) : (passes room : Nat) → Job → Eval Value
  | 0, _, _ => throw .passesExhausted
  | passes + 1, room, job =>
    pass
        (fun job =>
          match room with
          | 0 => beyond job
          | room + 1 => runOver beyond passes room job)
        passes job >>= Direct.finish (runOver beyond passes room)

def nestedOver (beyond : Nested) (passes room : Nat) : Nested := fun job =>
  match room with
  | 0 => beyond job
  | room + 1 => runOver beyond passes room job

theorem runOver_succ (beyond : Nested) (passes room : Nat) (job : Job) :
    runOver beyond (passes + 1) room job =
      pass (nestedOver beyond passes room) passes job >>=
        Direct.finish (runOver beyond passes room) := rfl

/-- There are no activations beyond the room. -/
def noRoom : Nested := fun _ => throw .stackExhausted

theorem runOver_noRoom (passes room : Nat) : runOver noRoom passes room = run passes room := by
  induction passes generalizing room with
  | zero => rfl
  | succ passes ih =>
    funext job
    have hnested : nestedOver noRoom passes room = nestedRun passes room := by
      funext job
      cases room with
      | zero => rfl
      | succ room => exact congrFun (ih room) job
    rw [runOver_succ, run_succ, hnested, ih]

theorem nestedOver_noRoom (passes room : Nat) : nestedOver noRoom passes room =
    nestedRun passes room := by
  funext job
  cases room with
  | zero => rfl
  | succ room => exact congrFun (runOver_noRoom passes room) job

/-- Activations that never end are approximated by all others. -/
def Endless (c : Cutoff) (beyond : Nested) : Prop :=
  ∀ job (x : Eval Value), Approximates c (beyond job) x

theorem endless_noRoom : Endless .ofRoom noRoom := fun _ x => .stackExhausted id x

def noPasses : Nested := fun _ => throw .passesExhausted

theorem endless_noPasses : Endless .ofPasses noPasses := fun _ x => .passesExhausted id x

section

variable {c : Cutoff} {beyond beyond' : Nested} {extra : Nat}

theorem approximates_nestedOver {passes passes' : Nat}
    (hbeyond : NestedApproximates c beyond (nestedOver beyond' passes' extra))
    (h : ∀ room, NestedApproximates c (runOver beyond passes room)
      (runOver beyond' passes' (room + extra))) (room : Nat) :
    NestedApproximates c (nestedOver beyond passes room)
      (nestedOver beyond' passes' (room + extra)) := by
  intro job
  cases room with
  | zero =>
    rw [Nat.zero_add]
    exact hbeyond job
  | succ room =>
    rw [Nat.add_right_comm]
    exact h room job

/-- A run approximates another one with more room when this holds for the activations beyond the
smaller room. -/
theorem approximates_runOver
    (hbeyond : ∀ passes, NestedApproximates c beyond (nestedOver beyond' passes extra))
    {passes passes' : Nat} (hpasses : c.Extends passes passes') (room : Nat) :
    NestedApproximates c (runOver beyond passes room)
      (runOver beyond' passes' (room + extra)) := by
  induction passes generalizing passes' room with
  | zero =>
    intro job
    by_cases hc : c.passesEnd
    · rw [← hpasses.2 hc]
      exact .refl _
    · exact .passesExhausted hc _
  | succ passes ih =>
    obtain ⟨passes', rfl⟩ := Nat.exists_eq_add_of_le' (Nat.one_le_of_lt hpasses.1)
    have hpasses : c.Extends passes passes' :=
      ⟨Nat.le_of_succ_le_succ hpasses.1, fun hc => Nat.succ.inj (hpasses.2 hc)⟩
    have hnested := approximates_nestedOver (hbeyond passes') (ih hpasses) room
    intro job
    rw [runOver_succ, runOver_succ]
    exact .bind (hnested.pass hpasses job) (Direct.approximates_finish (ih hpasses room))

end

theorem approximates_run {c : Cutoff} (hc : ¬ c.passesEnd) {passes passes' : Nat}
    (hpasses : passes ≤ passes') (room : Nat) :
    NestedApproximates c (run passes room) (run passes' room) := by
  rw [← runOver_noRoom, ← runOver_noRoom]
  have hbeyond (passes : Nat) : NestedApproximates c noRoom (nestedOver noRoom passes 0) :=
    fun _ => .refl _
  exact approximates_runOver hbeyond (Cutoff.extends_of_le hc hpasses) room

/-- A computation with nested activations, for each room and for what is done beyond it. -/
abbrev Nesting (α : Type) := (beyond : Nested) → (room : Nat) → Eval α

/-- With more room a computation ends alike, if it ends without. -/
def Nesting.Steady (x : Nesting α) : Prop :=
  ∀ (c : Cutoff) (beyond : Nested), Endless c beyond → ∀ (beyond' : Nested) (room room' : Nat),
    room ≤ room' → Approximates c (x beyond room) (x beyond' room')

/-- A computation starts no activation beyond the room: whatever such an activation would do, the
outcome is the same. -/
def Nesting.Fits (x : Nesting α) (room : Nat) (s : Store) : Prop :=
  ∀ beyond, x beyond room s = x noRoom room s

variable {x : Nesting α}

/-- An outcome cannot be due to an exhausted room and to exhausted passes. -/
theorem ends_or_ends (r : Result α) : Cutoff.ofRoom.Ends r ∨ Cutoff.ofPasses.Ends r := by
  cases r with
  | ok a s => exact .inl trivial
  | error stop s =>
    cases stop with
    | fault | host | passesExhausted => exact .inl trivial
    | stackExhausted => exact .inr trivial

/-- What fits into a room fits into a larger one and has the same outcome there. -/
theorem Nesting.Fits.eq (h : x.Fits room s) (hx : x.Steady) (beyond : Nested)
    (hroom : room ≤ room') : x beyond room' s = x noRoom room s := by
  obtain hends | hends := ends_or_ends (x noRoom room s)
  · exact hx _ _ endless_noRoom beyond _ _ hroom s hends
  · rw [← h noPasses] at hends ⊢
    exact hx _ _ endless_noPasses beyond _ _ hroom s hends

theorem Nesting.Fits.mono (h : x.Fits room s) (hx : x.Steady) (hroom : room ≤ room') :
    x.Fits room' s := fun beyond => (h.eq hx beyond hroom).trans (h.eq hx noRoom hroom).symm

/-- The largest number of activations that are live at once in a computation, its own included. -/
noncomputable def Nesting.depth (x : Nesting α) (s : Store) : ℕ∞ :=
  ⨅ (room : ℕ) (_ : x.Fits room s), (room + 1 : ℕ∞)

theorem Nesting.depth_le_iff (hx : x.Steady) : x.depth s ≤ room + 1 ↔ x.Fits room s := by
  constructor
  · intro h
    have hlt : x.depth s < (room + 1 : ℕ∞) + 1 := by
      refine lt_of_le_of_lt h ?_
      exact_mod_cast Nat.lt_succ_self (room + 1)
    simp only [depth, iInf_lt_iff] at hlt
    obtain ⟨room', hfits, hroom⟩ := hlt
    have hroom : room' ≤ room := by
      have : room' + 1 < room + 1 + 1 := by exact_mod_cast hroom
      omega
    exact hfits.mono hx hroom
  · exact fun h => iInf₂_le room h

/-- A computation that ends alike in a room, whatever is done beyond it, and needs all of it. -/
theorem Nesting.depth_eq {r : Result α} {s₁ s₂ : Store} (hx : x.Steady)
    (hends : ∀ beyond, x beyond (room + 1) s = r)
    (hpasses : x noPasses room s = .error .passesExhausted s₁)
    (hroom : x noRoom room s = .error .stackExhausted s₂) : x.depth s = room + 2 := by
  have hfits : x.Fits (room + 1) s := fun beyond => (hends beyond).trans (hends noRoom).symm
  have hnot : ¬ x.Fits room s := by
    intro h
    cases hpasses.symm.trans ((h noPasses).trans hroom)
  have hle := (depth_le_iff hx).2 hfits
  have hlt := lt_of_not_ge (mt (depth_le_iff hx).1 hnot)
  push_cast [add_assoc, one_add_one_eq_two] at hle
  refine le_antisymm hle ?_
  rw [← one_add_one_eq_two, ← add_assoc]
  exact Order.add_one_le_of_lt hlt

theorem Nesting.depth_eq_max {β γ : Type} {y : Nesting β} {z : Nesting γ} {s₁ s₂ : Store}
    (hx : x.Steady) (hy : y.Steady) (hz : z.Steady)
    (h : ∀ room, x.Fits room s ↔ y.Fits room s₁ ∧ z.Fits room s₂) :
    x.depth s = max (y.depth s₁) (z.depth s₂) := by
  refine eq_of_forall_ge_iff fun d => ?_
  rw [max_le_iff]
  have hpos {δ : Type} (w : Nesting δ) (s : Store) : ¬ w.depth s ≤ 0 := by
    simp [depth]
  cases d with
  | top => simp
  | coe d =>
    cases d with
    | zero => simp only [Nat.cast_zero, hpos, false_and]
    | succ room =>
      push_cast
      rw [depth_le_iff hx, depth_le_iff hy, depth_le_iff hz, h]

def running (passes : Nat) (job : Job) : Nesting Value := fun beyond room =>
  runOver beyond passes room job

def passing (passes : Nat) (job : Job) : Nesting Step := fun beyond room =>
  pass (nestedOver beyond passes room) passes job

/-- The largest number of activations that are live at once while a job is done. -/
noncomputable def depth (passes : Nat) (job : Job) (s : Store) : ℕ∞ := (running passes job).depth s

/-- The largest number of activations that are live at once while a pass is made over a job. -/
noncomputable def passDepth (passes : Nat) (job : Job) (s : Store) : ℕ∞ :=
  (passing passes job).depth s

theorem steady_running (passes : Nat) (job : Job) : (running passes job).Steady := by
  intro c beyond hbeyond beyond' room room' hroom
  obtain ⟨extra, rfl⟩ := Nat.exists_eq_add_of_le hroom
  exact approximates_runOver (fun _ job => hbeyond job _) (c.extends_refl passes) room job

theorem steady_passing (passes : Nat) (job : Job) : (passing passes job).Steady := by
  intro c beyond hbeyond beyond' room room' hroom
  obtain ⟨extra, rfl⟩ := Nat.exists_eq_add_of_le hroom
  have hover (passes : Nat) : NestedApproximates c beyond (nestedOver beyond' passes extra) :=
    fun job => hbeyond job _
  have hrun := approximates_runOver hover (c.extends_refl passes)
  have hnested := approximates_nestedOver (hover passes) hrun room
  exact hnested.pass (c.extends_refl passes) job

theorem running_succ (beyond : Nested) (passes room : Nat) (job : Job) :
    running (passes + 1) job beyond room =
      passing passes job beyond room >>= Direct.finish (runOver beyond passes room) := rfl

theorem fits_passing (h : (running (passes + 1) job).Fits room s) :
    (passing passes job).Fits room s := by
  intro beyond
  have hsteady := steady_passing passes job
  obtain hends | hends := ends_or_ends (running (passes + 1) job noRoom room s)
  · rw [running_succ] at hends
    exact hsteady _ _ endless_noRoom beyond _ _ le_rfl s (Approximates.ends_of_bind hends)
  · rw [← h noPasses, running_succ] at hends
    have hpasses (beyond : Nested) : passing passes job beyond room s =
        passing passes job noPasses room s :=
      hsteady _ _ endless_noPasses beyond _ _ le_rfl s (Approximates.ends_of_bind hends)
    exact (hpasses beyond).trans (hpasses noRoom).symm

/-- A pass that hands back a job hands it back in every room into which the pass fits. -/
theorem passing_eq_next (h : pass (nestedRun passes room) passes job s = .ok (.next job') s')
    (hfits : (passing passes job).Fits room' s) (beyond : Nested) :
    passing passes job beyond room' s = .ok (.next job') s' := by
  have hsteady := steady_passing passes job
  have hnext : passing passes job noRoom room s = .ok (.next job') s' := by
    unfold passing
    rwa [nestedOver_noRoom]
  obtain hroom | hroom := le_total room room'
  · have hends : Cutoff.ofRoom.Ends (passing passes job noRoom room s) := hnext ▸ trivial
    exact (hsteady _ _ endless_noRoom beyond _ _ hroom s hends).trans hnext
  · exact (hfits beyond).trans ((hfits.eq hsteady noRoom hroom).symm.trans hnext)

/-- When a pass hands back a job, the run is as deep as the pass or as the job that is left,
whichever is deeper. -/
theorem depth_eq_max (h : pass (nestedRun passes room) passes job s = .ok (.next job') s') :
    depth (passes + 1) job s = max (passDepth passes job s) (depth passes job' s') := by
  refine Nesting.depth_eq_max (steady_running _ _) (steady_passing _ _) (steady_running _ _) ?_
  intro room'
  have hrun (hfits : (passing passes job).Fits room' s) (beyond : Nested) :
      running (passes + 1) job beyond room' s = running passes job' beyond room' s' :=
    bind_of_ok (passing_eq_next h hfits beyond)
  constructor
  · intro hfits
    have hpass := fits_passing hfits
    refine ⟨hpass, fun beyond => ?_⟩
    rw [← hrun hpass, ← hrun hpass]
    exact hfits beyond
  · rintro ⟨hpass, hfits⟩ beyond
    rw [hrun hpass, hrun hpass]
    exact hfits beyond

/-- A run that ends within a room is no deeper than the room allows, at any number of passes. -/
theorem depth_le (h : Ended (run passes room job s)) (passes' : Nat) :
    depth passes' job s ≤ room + 1 := by
  refine (Nesting.depth_le_iff (steady_running _ _)).2 fun beyond => ?_
  refine steady_running _ _ _ _ endless_noRoom beyond _ _ le_rfl s ?_
  change Cutoff.ofRoom.Ends (runOver noRoom passes' room job s)
  rw [runOver_noRoom]
  obtain hends | hends := ends_or_ends (run passes' room job s)
  · exact hends
  · -- What ends the shorter run ends the longer one too, which meets no limit.
    have hlong := approximates_run (c := .both) id (le_max_left passes passes') room job s h
    have hshort := approximates_run (c := .ofPasses) id (le_max_right passes passes') room job s hends
    rw [← hshort, hlong]
    generalize run passes room job s = r at h
    cases r with
    | ok v s' => trivial
    | error stop s' => cases stop <;> trivial

end SmallLisp.Eval
