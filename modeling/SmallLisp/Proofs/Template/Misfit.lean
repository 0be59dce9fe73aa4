import Mathlib.Tactic
import SmallLisp.Proofs.Template.Code

/-!
# Templates that have no code

A template has no code when an `unquote` or a `splice-unquote` in it does not have exactly one form
behind it. An `unquote` counts at the head of a list or vector and of every rest of it, a splice as
an element. Neither is looked for inside of what is unquoted or spliced, nor in a map, which is
quoted as it is. The rewriting of such a template stops, and has made some lists at most.
-/

namespace SmallLisp.Template

open Eval

variable {t head c : Value} {items rest forms : List Value} {s s' : Store}

mutual

/-- A template with an `unquote` or a splice of the wrong length. -/
inductive Misfit : Value → Prop
  | sequence {t : Value} {items : List Value} :
      t.sequence? = some items → MisfitItems items → Misfit t

inductive MisfitItems : List Value → Prop
  | unquote {forms : List Value} : forms.length ≠ 1 → MisfitItems (.sym "unquote" :: forms)
  | splice {head : Value} {forms rest : List Value} :
      spliced? head = some forms → forms.length ≠ 1 → MisfitItems (head :: rest)
  | item {head : Value} {rest : List Value} :
      spliced? head = none → Misfit head → MisfitItems (head :: rest)
  | rest {head : Value} {rest : List Value} :
      head.isSymbol "unquote" = false → MisfitItems rest → MisfitItems (head :: rest)

end

theorem eq_sym_of_isSymbol {name : String} (h : head.isSymbol name = true) : head = .sym name := by
  cases head with
  | sym symbol =>
    obtain rfl : symbol = name := by simpa [Value.isSymbol, Value.symbol?] using h
    rfl
  | _ => simp [Value.isSymbol, Value.symbol?] at h

theorem isSymbol_of_sequence {name : String} (h : head.sequence? = some items) :
    head.isSymbol name = false := by
  cases head with
  | list | vec => rfl
  | _ => cases h

theorem sequence?_of_spliced (h : spliced? head = some forms) :
    ∃ items, head.sequence? = some items := by
  unfold spliced? at h
  split at h
  · next args hsequence => exact ⟨_, hsequence⟩
  · cases h

theorem codeOfItems_unquote (h : forms.length ≠ 1) :
    codeOfItems (.sym "unquote" :: forms) = throw (.form .unquoteShape) := by
  rcases forms with _ | ⟨form, _ | ⟨_, _⟩⟩
  · rfl
  · exact absurd rfl h
  · rfl

theorem codeOfItems_misspliced (hhead : head.isSymbol "unquote" = false)
    (hspliced : spliced? head = some forms) (h : forms.length ≠ 1) :
    codeOfItems (head :: rest) = throw (.form .spliceShape) := by
  unfold codeOfItems
  simp only [hhead, hspliced]
  rcases forms with _ | ⟨form, _ | ⟨_, _⟩⟩
  · rfl
  · exact absurd rfl h
  · rfl

theorem codeOfItems_concat {sequence : Value} (hhead : head.isSymbol "unquote" = false)
    (hspliced : spliced? head = some [sequence]) :
    codeOfItems (head :: rest) =
      codeOfItems rest >>= fun tail => form "concat" [sequence, tail] := by
  conv_lhs => unfold codeOfItems
  simp only [hhead, hspliced]
  rfl

theorem codeOfItems_cons (hhead : head.isSymbol "unquote" = false)
    (hspliced : spliced? head = none) :
    codeOfItems (head :: rest) =
      code head >>= fun first => codeOfItems rest >>= fun tail => form "cons" [first, tail] := by
  conv_lhs => unfold codeOfItems
  simp only [hhead, hspliced]
  rfl

/-- A computation stops because of a malformed form and has made some lists at most. -/
def Rejects {α : Type} (x : Eval α) (s : Store) : Prop :=
  ∃ cause s', x s = .error (.form cause) s' ∧ SameState s s'

theorem rejects_throw {α : Type} (cause : FormFault) (s : Store) :
    Rejects (throw (.form cause) : Eval α) s := ⟨cause, s, rfl, .refl s⟩

theorem Rejects.bind {α β : Type} {x : Eval α} (h : Rejects x s) (f : α → Eval β) :
    Rejects (x >>= f) s := by
  obtain ⟨cause, s', hx, hsame⟩ := h
  exact ⟨cause, s', bind_of_error hx, hsame⟩

theorem Rejects.of_ok_bind {α β : Type} {x : Eval α} {f : α → Eval β} {a : α}
    (hx : x s = .ok a s') (hsame : SameState s s') (h : Rejects (f a) s') :
    Rejects (x >>= f) s := by
  obtain ⟨cause, s₁, hf, hsame'⟩ := h
  exact ⟨cause, s₁, (bind_of_ok hx).trans hf, hsame.trans hsame'⟩

mutual

theorem code_ok_or_rejects : (t : Value) → (s : Store) →
    (∃ c s', code t s = .ok c s') ∨ Rejects (code t) s
  | .list id items marked info, s => by
    unfold code
    split_ifs
    · exact .inl ⟨_, _, rfl⟩
    · exact codeOfItems_ok_or_rejects items s
  | .vec id items info, s => by
    unfold code
    split_ifs
    · exact .inl ⟨_, _, rfl⟩
    · exact codeOfItems_ok_or_rejects items s
  | .nil, _ | .bool _, _ | .int _, _ | .float _, _ | .nan _, _ | .str _, _ | .sym _, _ | .kw _, _
  | .map .., _ | .pair .., _ | .atom _, _ | .closure .., _ | .builtin .., _ => .inl ⟨_, _, rfl⟩

theorem codeOfItems_ok_or_rejects : (items : List Value) → (s : Store) →
    (∃ c s', codeOfItems items s = .ok c s') ∨ Rejects (codeOfItems items) s
  | [], s => .inl ⟨_, _, rfl⟩
  | head :: rest, s => by
    by_cases hhead : head.isSymbol "unquote" = true
    · obtain rfl := eq_sym_of_isSymbol hhead
      by_cases hrest : rest.length = 1
      · obtain ⟨form, rfl⟩ := List.length_eq_one_iff.1 hrest
        exact .inl ⟨form, s, rfl⟩
      · rw [codeOfItems_unquote hrest]
        exact .inr (rejects_throw _ s)
    · have hhead := Bool.eq_false_of_not_eq_true hhead
      cases hspliced : spliced? head with
      | none =>
        rw [codeOfItems_cons hhead hspliced]
        obtain ⟨first, s₁, hfirst⟩ | hfirst := code_ok_or_rejects head s
        · obtain ⟨tail, s₂, htail⟩ | htail := codeOfItems_ok_or_rejects rest s₁
          · exact .inl ⟨_, _, (bind_of_ok hfirst).trans (bind_of_ok htail)⟩
          · exact .inr (.of_ok_bind hfirst (sameState_code head hfirst) (htail.bind _))
        · exact .inr (hfirst.bind _)
      | some forms =>
        by_cases hforms : forms.length = 1
        · obtain ⟨sequence, rfl⟩ := List.length_eq_one_iff.1 hforms
          rw [codeOfItems_concat hhead hspliced]
          obtain ⟨tail, s₁, htail⟩ | htail := codeOfItems_ok_or_rejects rest s
          · exact .inl ⟨_, _, bind_of_ok htail⟩
          · exact .inr (htail.bind _)
        · rw [codeOfItems_misspliced hhead hspliced hforms]
          exact .inr (rejects_throw _ s)

end

theorem Misfit.sequence?_eq : Misfit t → ∃ items, t.sequence? = some items
  | .sequence ht _ => ⟨_, ht⟩

mutual

theorem Misfit.code_ne_ok {t c : Value} {s s' : Store} : Misfit t → code t s ≠ .ok c s'
  | .sequence ht hitems => by
    rw [code_sequence ht (by rintro rfl; cases hitems)]
    exact hitems.codeOfItems_ne_ok

theorem MisfitItems.codeOfItems_ne_ok {items : List Value} {c : Value} {s s' : Store} :
    MisfitItems items → codeOfItems items s ≠ .ok c s'
  | .unquote hforms => by
    rw [codeOfItems_unquote hforms]
    exact throw_ne_ok
  | .splice hspliced hforms => by
    obtain ⟨items, hitems⟩ := sequence?_of_spliced hspliced
    rw [codeOfItems_misspliced (isSymbol_of_sequence hitems) hspliced hforms]
    exact throw_ne_ok
  | .item hspliced hmisfit => by
    intro h
    obtain ⟨items, hitems⟩ := hmisfit.sequence?_eq
    obtain ⟨first, s₁, _, _, hfirst, -⟩ :=
      codeOfItems_item (isSymbol_of_sequence hitems) hspliced h
    exact hmisfit.code_ne_ok hfirst
  | @MisfitItems.rest head _ hhead hrest => by
    intro h
    cases hspliced : spliced? head with
    | none =>
      obtain ⟨_, s₁, tail, s₂, -, htail, -⟩ := codeOfItems_item hhead hspliced h
      exact hrest.codeOfItems_ne_ok htail
    | some forms =>
      by_cases hforms : forms.length = 1
      · obtain ⟨sequence, rfl⟩ := List.length_eq_one_iff.1 hforms
        obtain ⟨tail, s₁, htail, -⟩ := codeOfItems_splice hhead hspliced h
        exact hrest.codeOfItems_ne_ok htail
      · rw [codeOfItems_misspliced hhead hspliced hforms] at h
        exact throw_ne_ok h

end

/-- A template with an `unquote` or a splice of the wrong length is rejected. -/
theorem Misfit.rejects (h : Misfit t) (s : Store) : Rejects (code t) s := by
  obtain ⟨c, s', hcode⟩ | hrejects := code_ok_or_rejects t s
  · exact absurd hcode h.code_ne_ok
  · exact hrejects

end SmallLisp.Template
