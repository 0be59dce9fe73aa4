import Mathlib.Tactic
import SmallLisp.Proofs.Template.Fill

/-!
# The calls in the code of a template

The code of a template quotes values and calls `cons` and `concat`. Each call is evaluated by direct
evaluation, under the condition that its name still means what it should.
-/

namespace SmallLisp.Template

open Eval

variable {scope : ScopeId} {s s' : Store}

theorem lookupFrom_congr (h : s'.scopes = s.scopes) (name : String) (bound : Nat)
    (id : ScopeId) : s'.lookupFrom name bound id = s.lookupFrom name bound id := by
  induction bound generalizing id with
  | zero => rfl
  | succ bound ih =>
    unfold Store.lookupFrom Store.scope?
    rw [h]
    simp only [ih]

theorem lookup?_congr (h : s'.scopes = s.scopes) (name : String) :
    s'.lookup? scope name = s.lookup? scope name :=
  lookupFrom_congr h name (scope + 1) scope

theorem Standard.congr (h : s'.scopes = s.scopes) (hstandard : Standard scope s) :
    Standard scope s' := by
  obtain ⟨hcons, hconcat, hquote, hquasiquote⟩ := hstandard
  constructor
  · simpa only [MeansCore, lookup?_congr h] using hcons
  · simpa only [MeansCore, lookup?_congr h] using hconcat
  · simpa only [NoMacro, lookup?_congr h] using hquote
  · simpa only [NoMacro, lookup?_congr h] using hquasiquote

theorem MeansCore.noMacro {name : String} {f : Core} (h : MeansCore scope s name f) :
    NoMacro scope s name := by
  obtain ⟨owner, wrapped, id, info, h⟩ := h
  intro owner' value hlookup
  obtain ⟨-, rfl⟩ := Prod.mk.inj (Option.some.inj (h.symm.trans hlookup))
  rfl

theorem macroCall?_eq_none {name : String} (h : NoMacro scope s name) (id : Identity)
    (args : List Value) (marked : Bool) (info : Value) :
    macroCall? s (.list id (.sym name :: args) marked info) scope = none := by
  unfold macroCall?
  dsimp only
  split
  · next hlookup => exact absurd (h _ _ hlookup) (by simp [Value.isMacro])
  · rfl

theorem expandOnce_eq {name : String} (h : NoMacro scope s name) (nested : Nested)
    (id : Identity) (args : List Value) (marked : Bool) (info : Value) :
    expandOnce nested (.list id (.sym name :: args) marked info) scope s = .ok none s :=
  expandOnce_of_none (macroCall?_eq_none h id args marked info) nested

theorem list_eq_special {name : String} {form : SpecialForm} (h : NoMacro scope s name)
    (hname : SpecialForm.ofName? name = some form) (recur : Nested) (id : Identity)
    (args : List Value) (marked : Bool) (info : Value) :
    Direct.form recur (.list id (.sym name :: args) marked info) scope s =
      Direct.special recur form args scope s :=
  Direct.form_of_special (macroCall?_eq_none h id args marked info) hname recur

theorem endsWith_quote (h : NoMacro scope s "quote") (id : Identity) (v : Value) :
    Direct.EndsWith (.eval (.plainList id [.sym "quote", v]) scope) s (.ok v s) :=
  ⟨trivial, 1, list_eq_special h rfl _ id [v] false .nil⟩

/-- A call of a core function evaluates the two operands one after the other. -/
theorem endsWith_call {name : String} {f : Core} (h : MeansCore scope s name f)
    (hname : SpecialForm.ofName? name = none) (id : Identity) {a b x y v : Value}
    {s₁ s₂ s₃ : Store} (ha : Direct.EndsWith (.eval a scope) s (.ok x s₁))
    (hb : Direct.EndsWith (.eval b scope) s₁ (.ok y s₂))
    (hcall : ∀ nested limit, runBuiltin (.core f) nested limit [x, y] s₂ = .ok v s₃) :
    Direct.EndsWith (.eval (.plainList id [.sym name, a, b]) scope) s (.ok v s₃) := by
  obtain ⟨depthA, ha⟩ := ha.eventually
  obtain ⟨depthB, hb⟩ := hb.eventually
  have hmacro := h.noMacro
  obtain ⟨owner, wrapped, wrappedId, info, hlookup⟩ := h
  obtain ⟨depth, hdepthA, hdepthB⟩ : ∃ depth, depthA ≤ depth ∧ depthB ≤ depth :=
    ⟨max depthA depthB, le_max_left _ _, le_max_right _ _⟩
  have ha := ha (depth + 1) (by omega)
  have hb := hb (depth + 1) (by omega)
  have hf : Direct.run (depth + 1) (.eval (.sym name) scope) s =
      .ok (.builtin (.core f) wrapped wrappedId info) s := by
    change lookup scope name s = _
    unfold lookup
    rw [get_bind, hlookup]
    rfl
  have happly : Direct.run (depth + 1) (.call (.builtin (.core f) wrapped wrappedId info) [x, y])
      s₂ = .ok v s₃ := hcall (Direct.run depth) depth
  refine ⟨trivial, depth + 2, ?_⟩
  change Direct.form (Direct.run (depth + 1)) (.plainList id [.sym name, a, b]) scope s = .ok v s₃
  unfold Direct.form Direct.list
  simp only [Bind.bind, EStateM.bind, expandOnce_eq hmacro, Value.symbol?, Option.bind_some, hname,
    Nested.eval, hf, List.mapM_cons, List.mapM_nil, ha, hb, pure, EStateM.pure, happly]

theorem elements_eq {v : Value} {items : List Value} (h : elements? v = some items)
    (function : String) (s : Store) : elements function v s = .ok items s := by
  unfold elements
  split
  · obtain rfl := Option.some.inj h
    rfl
  · next hnil =>
    have hsequence : v.sequence? = some items := by
      unfold elements? at h
      split at h
      · exact absurd rfl hnil
      · exact h
    simp only [hsequence]
    rfl

theorem endsWith_cons (h : Standard scope s) (id : Identity) {a b x y : Value}
    {others : List Value} {s₁ s₂ : Store} (ha : Direct.EndsWith (.eval a scope) s (.ok x s₁))
    (hb : Direct.EndsWith (.eval b scope) s₁ (.ok y s₂)) (hy : elements? y = some others) :
    Direct.EndsWith (.eval (.plainList id [.sym "cons", a, b]) scope) s
      (.ok (listIn s₂ (x :: others)) (afterList s₂)) := by
  apply endsWith_call h.cons (by decide) id ha hb
  intro nested limit
  simp only [runBuiltin, inside, Core.run, Sequence.cons, double, Bind.bind, EStateM.bind, pure,
    EStateM.pure, elements_eq hy]
  rfl

theorem runBuiltin_concat {x y : Value} {first others : List Value} (hx : elements? x = some first)
    (hy : elements? y = some others) (s : Store) (nested : Nested) (limit : Nat) :
    runBuiltin (.core .concat) nested limit [x, y] s =
      .ok (listIn s (first ++ others)) (afterList s) := by
  simp only [runBuiltin, inside, Core.run, Sequence.concat, List.mapM_cons, List.mapM_nil,
    Bind.bind, EStateM.bind, pure, EStateM.pure, elements_eq hx, elements_eq hy]
  simp [listIn, afterList, newList, fresh, Bind.bind, EStateM.bind]
  rfl

theorem endsWith_concat (h : Standard scope s) (id : Identity) {a b x y : Value}
    {first others : List Value} {s₁ s₂ : Store}
    (ha : Direct.EndsWith (.eval a scope) s (.ok x s₁))
    (hb : Direct.EndsWith (.eval b scope) s₁ (.ok y s₂)) (hx : elements? x = some first)
    (hy : elements? y = some others) :
    Direct.EndsWith (.eval (.plainList id [.sym "concat", a, b]) scope) s
      (.ok (listIn s₂ (first ++ others)) (afterList s₂)) := by
  exact endsWith_call h.concat (by decide) id ha hb (runBuiltin_concat hx hy s₂)

end SmallLisp.Template
