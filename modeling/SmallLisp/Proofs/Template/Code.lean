import Mathlib.Tactic
import SmallLisp.Interpreter
import SmallLisp.Proofs.Template.Call

/-!
# The code of a template

The code that a template is rewritten into evaluates to the filled template, which is shown along
the filling. The unquoted forms are read off the filling as well.
-/

namespace SmallLisp.Template

open Eval

variable {scope : ScopeId} {s s' : Store}

theorem SameState.refl (s : Store) : SameState s s := rfl

theorem SameState.trans {s₁ s₂ s₃ : Store} (h : SameState s₁ s₂) (h' : SameState s₂ s₃) :
    SameState s₁ s₃ := by
  unfold SameState at h h' ⊢
  rw [h', h]

theorem sameState_afterList (s : Store) : SameState s (afterList s) := rfl

theorem SameState.scopes (h : SameState s s') : s'.scopes = s.scopes := by
  rw [h]

theorem form_eq (head : String) (args : List Value) (s : Store) :
    form head args s = .ok (listIn s (.sym head :: args)) (afterList s) := rfl

/-- What a code is made of, when it splices a sequence in front of the rest. -/
theorem codeOfItems_splice {head sequence c : Value} {rest : List Value}
    (hhead : head.isSymbol "unquote" = false) (hspliced : spliced? head = some [sequence])
    (h : codeOfItems (head :: rest) s = .ok c s') :
    ∃ tail s₁, codeOfItems rest s = .ok tail s₁ ∧
      c = listIn s₁ [.sym "concat", sequence, tail] ∧ s' = afterList s₁ := by
  unfold codeOfItems at h
  simp only [hhead, hspliced] at h
  obtain ⟨tail, s₁, htail, hc⟩ := bind_eq_ok_iff.1 h
  rw [form_eq] at hc
  obtain ⟨rfl, rfl⟩ := EStateM.Result.ok.inj hc
  exact ⟨tail, s₁, htail, rfl, rfl⟩

theorem codeOfItems_item {head c : Value} {rest : List Value}
    (hhead : head.isSymbol "unquote" = false) (hspliced : spliced? head = none)
    (h : codeOfItems (head :: rest) s = .ok c s') :
    ∃ first s₁ tail s₂, code head s = .ok first s₁ ∧ codeOfItems rest s₁ = .ok tail s₂ ∧
      c = listIn s₂ [.sym "cons", first, tail] ∧ s' = afterList s₂ := by
  unfold codeOfItems at h
  simp only [hhead, hspliced] at h
  obtain ⟨first, s₁, hfirst, h⟩ := bind_eq_ok_iff.1 h
  obtain ⟨tail, s₂, htail, hc⟩ := bind_eq_ok_iff.1 h
  rw [form_eq] at hc
  obtain ⟨rfl, rfl⟩ := EStateM.Result.ok.inj hc
  exact ⟨first, s₁, tail, s₂, hfirst, htail, rfl, rfl⟩

theorem code_kept {t : Value} (h : t.sequence?.getD [] = []) (s : Store) :
    code t s = .ok (listIn s [.sym "quote", t]) (afterList s) := by
  cases t with
  | list id items marked info =>
    obtain rfl : items = [] := h
    rfl
  | vec id items info =>
    obtain rfl : items = [] := h
    rfl
  | _ => rfl

theorem code_sequence {t : Value} {items : List Value} (h : t.sequence? = some items)
    (hitems : items ≠ []) : code t = codeOfItems items := by
  have hempty : items.isEmpty = false := by simpa using hitems
  cases t with
  | list id items' marked info =>
    obtain rfl : items' = items := Option.some.inj h
    simp [code, hempty]
  | vec id items' info =>
    obtain rfl : items' = items := Option.some.inj h
    simp [code, hempty]
  | _ => simp [Value.sequence?] at h

mutual

theorem endsWith_code {t v c : Value} {before after s s' : Store} (hcode : code t before = .ok c after)
    (hstandard : Standard scope s) : Fills scope t s v s' →
      Standard scope s' ∧ Direct.EndsWith (.eval c scope) s (.ok v s')
  | .kept ht => by
    rw [code_kept ht] at hcode
    obtain ⟨rfl, -⟩ := EStateM.Result.ok.inj hcode
    exact ⟨hstandard, endsWith_quote hstandard.quote _ t⟩
  | .sequence ht hitems => by
    rw [code_sequence ht (by rintro rfl; cases hitems)] at hcode
    exact endsWith_codeOfItems hcode hstandard hitems

theorem endsWith_codeOfItems {items : List Value} {v c : Value} {before after s s' : Store}
    (hcode : codeOfItems items before = .ok c after) (hstandard : Standard scope s) :
    FillsItems scope items s v s' →
      Standard scope s' ∧ Direct.EndsWith (.eval c scope) s (.ok v s')
  | .unquote hv hafter => by
    obtain ⟨rfl, -⟩ := EStateM.Result.ok.inj hcode
    exact ⟨hafter, (endsWith_iff_direct _ _ _).1 hv⟩
  | .splice hhead hspliced hv hafter hfirst hrest => by
    obtain ⟨tail, s₁, htail, rfl, -⟩ := codeOfItems_splice hhead hspliced hcode
    obtain ⟨hstandard', w, hw, hothers⟩ := endsWith_codeOfRest htail hafter hrest
    constructor
    · exact hstandard'.congr (sameState_afterList _).scopes
    · exact endsWith_concat hstandard _ ((endsWith_iff_direct _ _ _).1 hv) hw hfirst hothers
  | .item hhead hspliced hv hrest => by
    obtain ⟨first, s₁, tail, s₂, hfirst, htail, rfl, -⟩ := codeOfItems_item hhead hspliced hcode
    obtain ⟨hmiddle, hv⟩ := endsWith_code hfirst hstandard hv
    obtain ⟨hstandard', w, hw, hothers⟩ := endsWith_codeOfRest htail hmiddle hrest
    constructor
    · exact hstandard'.congr (sameState_afterList _).scopes
    · exact endsWith_cons hstandard _ hv hw hothers

theorem endsWith_codeOfRest {rest others : List Value} {c : Value} {before after s s' : Store}
    (hcode : codeOfItems rest before = .ok c after) (hstandard : Standard scope s) :
    FillsRest scope rest s others s' →
      Standard scope s' ∧
        ∃ v, Direct.EndsWith (.eval c scope) s (.ok v s') ∧ elements? v = some others
  | .nil => by
    have hc : c = listIn (afterList before) [.sym "quote", listIn before []] :=
      (EStateM.Result.ok.inj hcode).1.symm
    rw [hc]
    exact ⟨hstandard, _, endsWith_quote hstandard.quote _ _, rfl⟩
  | .items hitems hothers => by
    obtain ⟨hstandard', hv⟩ := endsWith_codeOfItems hcode hstandard hitems
    exact ⟨hstandard', _, hv, hothers⟩

end

mutual

theorem sameState_code : (t : Value) → {c : Value} → {s s' : Store} → code t s = .ok c s' →
    SameState s s'
  | .list id items marked info, c, s, s', h => by
    unfold code at h
    split_ifs at h
    · exact (EStateM.Result.ok.inj h).2 ▸ sameState_afterList s
    · exact sameState_codeOfItems items h
  | .vec id items info, c, s, s', h => by
    unfold code at h
    split_ifs at h
    · exact (EStateM.Result.ok.inj h).2 ▸ sameState_afterList s
    · exact sameState_codeOfItems items h
  | .nil, _, _, _, h | .bool _, _, _, _, h | .int _, _, _, _, h | .float _, _, _, _, h
  | .nan _, _, _, _, h | .str _, _, _, _, h | .sym _, _, _, _, h | .kw _, _, _, _, h
  | .map .., _, _, _, h | .pair .., _, _, _, h | .atom _, _, _, _, h | .closure .., _, _, _, h
  | .builtin .., _, _, _, h => (EStateM.Result.ok.inj h).2 ▸ sameState_afterList _

theorem sameState_codeOfItems : (items : List Value) → {c : Value} → {s s' : Store} →
    codeOfItems items s = .ok c s' → SameState s s'
  | [], c, s, s', h => (EStateM.Result.ok.inj h).2 ▸ SameState.refl _
  | head :: rest, c, s, s', h => by
    by_cases hhead : head.isSymbol "unquote" = true
    · unfold codeOfItems at h
      simp only [hhead, if_true] at h
      split at h
      · exact (EStateM.Result.ok.inj h).2 ▸ SameState.refl s
      · cases h
    · have hhead := Bool.eq_false_of_not_eq_true hhead
      cases hspliced : spliced? head with
      | none =>
        obtain ⟨first, s₁, tail, s₂, hfirst, htail, -, rfl⟩ := codeOfItems_item hhead hspliced h
        exact ((sameState_code head hfirst).trans (sameState_codeOfItems rest htail)).trans
          (sameState_afterList s₂)
      | some forms =>
        match forms with
        | [sequence] =>
          obtain ⟨tail, s₁, htail, -, rfl⟩ := codeOfItems_splice hhead hspliced h
          exact (sameState_codeOfItems rest htail).trans (sameState_afterList s₁)
        | [] | _ :: _ :: _ =>
          unfold codeOfItems at h
          simp only [hhead, hspliced] at h
          cases h

end

namespace EvaluatesEach

variable {forms others : List Value} {s₁ s₂ : Store}

theorem before (h : SameState s s₁) (heach : EvaluatesEach scope forms s₁ s') :
    EvaluatesEach scope forms s s' := by
  cases heach with
  | done h₁ => exact .done (h.trans h₁)
  | next h₁ hform hforms => exact .next (h.trans h₁) hform hforms

theorem append (hforms : EvaluatesEach scope forms s s₁)
    (hothers : EvaluatesEach scope others s₁ s₂) : EvaluatesEach scope (forms ++ others) s s₂ := by
  induction hforms with
  | done h => exact hothers.before h
  | next h hform _ ih => exact .next h hform (ih hothers)

theorem after (hforms : EvaluatesEach scope forms s s₁) (h : SameState s₁ s₂) :
    EvaluatesEach scope forms s s₂ := by
  rw [← List.append_nil forms]
  exact hforms.append (.done h)

end EvaluatesEach

theorem unquoted_kept {t : Value} (h : t.sequence?.getD [] = []) : unquoted t = [] := by
  cases t with
  | list id items marked info =>
    obtain rfl : items = [] := h
    rfl
  | vec id items info =>
    obtain rfl : items = [] := h
    rfl
  | _ => rfl

theorem unquoted_sequence {t : Value} {items : List Value} (h : t.sequence? = some items) :
    unquoted t = unquotedItems items := by
  cases t with
  | list id items' marked info =>
    obtain rfl : items' = items := Option.some.inj h
    rfl
  | vec id items' info =>
    obtain rfl : items' = items := Option.some.inj h
    rfl
  | _ => simp [Value.sequence?] at h

mutual

/-- Filling evaluates the unquoted forms one after the other. -/
theorem evaluatesEach_of_fills {t v : Value} {s s' : Store} :
    Fills scope t s v s' → EvaluatesEach scope (unquoted t) s s'
  | .kept ht => by
    rw [unquoted_kept ht]
    exact .done (.refl s)
  | .sequence ht hitems => by
    rw [unquoted_sequence ht]
    exact evaluatesEach_of_fillsItems hitems

theorem evaluatesEach_of_fillsItems {items : List Value} {v : Value} {s s' : Store} :
    FillsItems scope items s v s' → EvaluatesEach scope (unquotedItems items) s s'
  | .unquote hv _ => .next (.refl s) hv (.done (.refl s'))
  | .splice hhead hspliced hv _ _ hrest => by
    simp only [unquotedItems, hhead, hspliced]
    have hothers := (evaluatesEach_of_fillsRest hrest).after (sameState_afterList _)
    exact .next (.refl s) hv hothers
  | .item hhead hspliced hv hrest => by
    simp only [unquotedItems, hhead, hspliced]
    have hothers := (evaluatesEach_of_fillsRest hrest).after (sameState_afterList _)
    exact (evaluatesEach_of_fills hv).append hothers

theorem evaluatesEach_of_fillsRest {rest others : List Value} {s s' : Store} :
    FillsRest scope rest s others s' → EvaluatesEach scope (unquotedItems rest) s s'
  | .nil => .done (.refl s)
  | .items hitems _ => evaluatesEach_of_fillsItems hitems

end

/-- A quasiquoted template evaluates to the filled template. Each unquoted form is evaluated once,
from left to right, and nothing else has an effect. -/
theorem eval_quasiquote {id : Identity} {marked : Bool} {info t c v : Value} {s₀ : Store}
    (hstandard : Standard scope s) (hcode : code t s = .ok c s₀)
    (hfills : Fills scope t s₀ v s') :
    EndsWith (.eval (.list id [.sym "quasiquote", t] marked info) scope) s (.ok v s') ∧
      EvaluatesEach scope (unquoted t) s s' := by
  have hsame := sameState_code t hcode
  constructor
  · obtain ⟨-, hended, depth, hv⟩ := endsWith_code hcode (hstandard.congr hsame.scopes) hfills
    refine (endsWith_iff_direct _ _ _).2 ⟨hended, depth + 1, ?_⟩
    have hname : SpecialForm.ofName? "quasiquote" = some .template := rfl
    have hform := list_eq_special hstandard.quasiquote hname (Direct.run depth) id [t] marked info
    change Direct.form (Direct.run depth) (.list id [.sym "quasiquote", t] marked info) scope s = _
    rw [hform]
    exact bind_eq_ok_iff.2 ⟨c, s₀, hcode, hv⟩
  · exact (evaluatesEach_of_fills hfills).before hsame

theorem standard_create : Standard rootScope (Interpreter.create 40) where
  cons := ⟨0, false, Value.literalNan, .nil, rfl⟩
  concat := ⟨0, false, Value.literalNan, .nil, rfl⟩
  quote owner value h := by cases h
  quasiquote owner value h := by cases h

/-- The template of a symbol, an unquoted number and a spliced vector is filled to a list of what
they give. -/
theorem eval_quasiquote_spliced :
    ∃ id s', EndsWith
        (.eval (.plainList 1 [.sym "quasiquote", .plainList 2 [.sym "a",
          .plainList 3 [.sym "unquote", .int 7],
          .plainList 4 [.sym "splice-unquote", .plainVec 5 [.int 8, .int 9]]]]) rootScope)
        (Interpreter.create 40) (.ok (.plainList id [.sym "a", .int 7, .int 8, .int 9]) s') ∧
      EvaluatesEach rootScope [.int 7, .plainVec 5 [.int 8, .int 9]] (Interpreter.create 40) s' := by
  obtain ⟨c, s₀, hcode⟩ : ∃ c s₀, code (.plainList 2 [.sym "a",
      .plainList 3 [.sym "unquote", .int 7],
      .plainList 4 [.sym "splice-unquote", .plainVec 5 [.int 8, .int 9]]])
      (Interpreter.create 40) = .ok c s₀ := ⟨_, _, rfl⟩
  have hstandard : Standard rootScope s₀ := standard_create.congr (sameState_code _ hcode).scopes
  have hseven : EndsWith (.eval (.int 7) rootScope) s₀ (.ok (.int 7) s₀) := ⟨trivial, 1, 0, rfl⟩
  have hvector : EndsWith (.eval (.plainVec 5 [.int 8, .int 9]) rootScope) s₀
      (.ok (.plainVec s₀.nextIdentity [.int 8, .int 9]) (afterList s₀)) := ⟨trivial, 2, 1, rfl⟩
  have hafter : Standard rootScope (afterList s₀) :=
    hstandard.congr (sameState_afterList s₀).scopes
  have hspliced : FillsItems rootScope
      [.plainList 4 [.sym "splice-unquote", .plainVec 5 [.int 8, .int 9]]] s₀
      (listIn (afterList s₀) [.int 8, .int 9]) (afterList^[2] s₀) :=
    .splice rfl rfl hvector hafter rfl .nil
  have hunquoted : FillsItems rootScope [.plainList 3 [.sym "unquote", .int 7],
      .plainList 4 [.sym "splice-unquote", .plainVec 5 [.int 8, .int 9]]] s₀
      (listIn (afterList^[2] s₀) [.int 7, .int 8, .int 9]) (afterList^[3] s₀) :=
    .item rfl rfl (.sequence rfl (.unquote hseven hstandard)) (.items hspliced rfl)
  have hfills : FillsItems rootScope [.sym "a", .plainList 3 [.sym "unquote", .int 7],
      .plainList 4 [.sym "splice-unquote", .plainVec 5 [.int 8, .int 9]]] s₀
      (listIn (afterList^[3] s₀) [.sym "a", .int 7, .int 8, .int 9]) (afterList^[4] s₀) :=
    .item rfl rfl (.kept rfl) (.items hunquoted rfl)
  exact ⟨_, _, eval_quasiquote standard_create hcode (.sequence rfl hfills)⟩

end SmallLisp.Template
