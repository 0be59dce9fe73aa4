import Mathlib.Tactic
import SmallLisp.Eval.Basic
import SmallLisp.Proofs.Value.TextFault
import SmallLisp.Proofs.World.Text

/-!
# Computations that run alike

Two computations run alike in a world when, from the stores of the world, both return values that
are related or both stop for reasons that match, and the stores that they leave make up a later
world. The rules are those of sequences, of caught faults and of limits that become faults; the
computations are those of texts.
-/

namespace SmallLisp

/-- A stop that carries no value. -/
def Stop.Plain : Stop → Prop
  | .fault (.raised ..) => False
  | _ => True

namespace World

open Eval

variable {root root' : ScopeId} {W W' : World root root'} {α β γ δ : Type}

/-- Two computations stop for the same reason; values that they raise match. -/
inductive StopsMatch (W : World root root') : Stop → Stop → Prop
  | raised {v w : Value} (shown : String) : W.Matches v w →
      StopsMatch W (.fault (.raised v shown)) (.fault (.raised w shown))
  | plain (stop : Stop) : stop.Plain → StopsMatch W stop stop

/-- Both outcomes leave the stores of a world, with related values or matching stops. -/
inductive Outcomes (W : World root root') (post : World root root' → α → β → Prop) :
    EStateM.Result Stop Store α → EStateM.Result Stop Store β → Prop
  | ok {a : α} {b : β} : post W a b → Outcomes W post (.ok a W.left) (.ok b W.right)
  | error {stop stop' : Stop} : W.StopsMatch stop stop' →
      Outcomes W post (.error stop W.left) (.error stop' W.right)

/-- Two computations run alike from the stores of a world, if these agree. -/
def Alike (W : World root root') (x : Eval α) (y : Eval β)
    (post : World root root' → α → β → Prop) : Prop :=
  W.Agree → ∃ W', W.Later W' ∧ W'.Agree ∧ W'.Outcomes post (x W.left) (y W.right)

def Same (_ : World root root') (a b : α) : Prop := a = b

section

variable {x : Eval α} {y : Eval β} {f : α → Eval γ} {g : β → Eval δ}
  {pre : World root root' → α → β → Prop} {post : World root root' → γ → δ → Prop}

theorem alike_pure {a : α} {b : β} (h : pre W a b) : W.Alike (pure a) (pure b) pre :=
  fun hW => ⟨W, .refl W, hW, .ok h⟩

theorem alike_throw {stop stop' : Stop} (h : W.StopsMatch stop stop') :
    W.Alike (throw stop) (throw stop') pre := fun hW => ⟨W, .refl W, hW, .error h⟩

theorem alike_stop {stop : Stop} (h : stop.Plain) : W.Alike (throw stop) (throw stop) pre :=
  alike_throw (.plain stop h)

theorem Alike.bind (hxy : W.Alike x y pre)
    (hfg : ∀ a b W', W.Later W' → pre W' a b → W'.Alike (f a) (g b) post) :
    W.Alike (x >>= f) (y >>= g) post := by
  intro hW
  obtain ⟨W₁, hlater, hW₁, houtcomes⟩ := hxy hW
  simp only [Bind.bind, EStateM.bind]
  generalize x W.left = r, y W.right = r' at houtcomes
  cases houtcomes with
  | ok hpre =>
    obtain ⟨W₂, hlater', hW₂, houtcomes⟩ := hfg _ _ W₁ hlater hpre hW₁
    exact ⟨W₂, hlater.trans hlater', hW₂, houtcomes⟩
  | error hstop => exact ⟨W₁, hlater, hW₁, .error hstop⟩

/-- Computations may count on the stores that they start from agreeing. -/
theorem alike_of_agree (h : W.Agree → W.Alike x y pre) : W.Alike x y pre := fun hW => h hW hW

theorem alike_get {f : Store → Eval γ} {g : Store → Eval δ}
    (h : W.Alike (f W.left) (g W.right) post) : W.Alike (get >>= f) (get >>= g) post := h

theorem Alike.discard (hxy : W.Alike x y pre) : W.Alike (discard x) (discard y) Same :=
  hxy.bind fun _ _ _ _ _ => alike_pure rfl

inductive Caught (W : World root root') (post : World root root' → α → β → Prop) :
    Except Fault α → Except Fault β → Prop
  | ok {a : α} {b : β} : post W a b → Caught W post (.ok a) (.ok b)
  | error {cause cause' : Fault} : W.StopsMatch (.fault cause) (.fault cause') →
      Caught W post (.error cause) (.error cause')

theorem Alike.attempt (hxy : W.Alike x y pre) :
    W.Alike (attempt x) (attempt y) fun W' => W'.Caught pre := by
  intro hW
  obtain ⟨W₁, hlater, hW₁, houtcomes⟩ := hxy hW
  unfold Eval.attempt
  generalize x W.left = r, y W.right = r' at houtcomes
  refine ⟨W₁, hlater, hW₁, ?_⟩
  cases houtcomes with
  | ok hpre => exact .ok (.ok hpre)
  | @error stop _ hstop =>
    cases hstop with
    | raised shown hvw => exact .ok (.error (.raised shown hvw))
    | plain _ hplain =>
      cases stop with
      | fault cause => exact .ok (.error (.plain _ hplain))
      | _ => exact .error (.plain _ trivial)

theorem Alike.inside (function : String) (hxy : W.Alike x y pre) :
    W.Alike (inside function x) (inside function y) pre := by
  intro hW
  obtain ⟨W₁, hlater, hW₁, houtcomes⟩ := hxy hW
  unfold Eval.inside
  generalize x W.left = r, y W.right = r' at houtcomes
  refine ⟨W₁, hlater, hW₁, ?_⟩
  cases houtcomes with
  | ok hpre => exact .ok hpre
  | @error stop _ hstop =>
    cases hstop with
    | raised shown hvw => exact .error (.raised shown hvw)
    | plain _ hplain =>
      cases stop with
      | fault cause => exact .error (.plain _ hplain)
      | _ => exact .error (.plain _ trivial)

/-- Computations for the items of two lists, one after the other. The items are judged in the world
in which their turn comes. -/
theorem alike_mapM {f : α → Eval γ} {g : β → Eval δ} {items : List α} {items' : List β}
    (pre : World root root' → α → β → Prop)
    (hpre : ∀ {a b W W'}, W.Later W' → pre W a b → pre W' a b)
    (hpost : ∀ {c d W W'}, W.Later W' → post W c d → post W' c d)
    (hfg : ∀ {a b W}, pre W a b → W.Alike (f a) (g b) post)
    (h : List.Forall₂ (pre W) items items') :
    W.Alike (items.mapM f) (items'.mapM g) fun W' => List.Forall₂ (post W') := by
  induction items generalizing W items' with
  | nil =>
    cases h
    exact alike_pure .nil
  | cons item items ih =>
    cases h with
    | cons hitem hitems =>
      rw [List.mapM_cons, List.mapM_cons]
      apply (hfg hitem).bind
      intro c d W₁ hW₁ hcd
      apply (ih (hitems.imp fun _ _ => hpre hW₁)).bind
      intro cs ds W₂ hW₂ hcds
      exact alike_pure (.cons (hpost hW₂ hcd) hcds)

end

theorem alike_ofExcept {x : Except Stop α} (h : StopsWith Stop.Plain x) :
    W.Alike (Eval.ofExcept x) (Eval.ofExcept x) Same := by
  cases x with
  | ok a => exact alike_pure rfl
  | error stop => exact alike_stop (h stop rfl)

theorem plain_of_isLimit {stop : Stop} (h : stop.IsLimit) : stop.Plain := by
  cases stop with
  | fault cause => exact h.elim
  | _ => trivial

theorem alike_represent {v w : Value} (h : W.Matches v w) :
    W.Alike (represent v) (represent w) Same := by
  refine alike_of_agree fun hW => alike_get ?_
  rw [represent_eq hW h]
  exact alike_ofExcept ((W.right.meetsLimits_represent w).mono fun _ => plain_of_isLimit)

theorem alike_print (mode : PrintMode) {v w : Value} (h : W.Matches v w) :
    W.Alike (print mode v) (print mode w) Same := by
  refine alike_of_agree fun hW => alike_get ?_
  rw [print_eq hW mode h]
  exact alike_ofExcept ((W.right.meetsLimits_print mode w).mono fun _ => plain_of_isLimit)

theorem alike_printJoined (mode : PrintMode) (separator : String) {vs ws : List Value}
    (h : W.AllMatch vs ws) :
    W.Alike (printJoined mode separator vs) (printJoined mode separator ws) Same := by
  refine alike_of_agree fun hW => alike_get ?_
  rw [printJoined_eq hW mode separator h]
  exact alike_ofExcept
    ((W.right.meetsLimits_printJoined mode separator ws).mono fun _ => plain_of_isLimit)

theorem alike_refusal (stop : String → Stop) (hstop : ∀ shown, (stop shown).Plain) {v w : Value}
    (h : W.Matches v w) {post : World root root' → α → β → Prop} :
    W.Alike (do throw (stop (← represent v))) (do throw (stop (← represent w))) post := by
  apply (alike_represent h).bind
  rintro shown _ W₁ _ rfl
  exact alike_stop (hstop shown)

end World

end SmallLisp
