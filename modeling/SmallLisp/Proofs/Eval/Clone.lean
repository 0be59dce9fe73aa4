import Mathlib.Tactic
import SmallLisp.Proofs.Eval.Comparison
import SmallLisp.Proofs.Eval.Malformed
import SmallLisp.Proofs.Interpreter.Reachable

/-!
# Values with metadata

To give a value metadata is to make a clone of it: a new object that differs in its identity and
its metadata only. Nothing but equality and `meta` tells the two apart. No predicate on types does,
nor does printing, taking apart, applying or expanding them.
-/

namespace SmallLisp

open Eval

namespace Value

def entries? : Value → Option (List (Value × Value))
  | map _ entries _ _ => some entries
  | _ => none

/-- The values that have room for metadata: collections, closures and builtins. -/
def takesMetadata : Value → Bool
  | list .. | vec .. | map .. | closure .. | builtin .. => true
  | _ => false

end Value

namespace Core

/-- The property that a predicate on types tests. -/
def property? : Core → Option (Value → Bool)
  | .isNil => some (· matches .nil)
  | .isTrue => some (· matches .bool true)
  | .isFalse => some (· matches .bool false)
  | .isNumber => some (·.number?.isSome)
  | .isString => some (· matches .str _)
  | .isSymbol => some (· matches .sym _)
  | .isKeyword => some (· matches .kw _)
  | .isFn => some Value.isFunction
  | .isMacro => some Value.isMacro
  | .isList => some (· matches .list ..)
  | .isVector => some (· matches .vec ..)
  | .isMap => some (· matches .map ..)
  | .isAtom => some (· matches .atom _)
  | _ => none

def typePredicates : List Core :=
  [.isNil, .isTrue, .isFalse, .isNumber, .isString, .isSymbol, .isKeyword, .isFn, .isMacro, .isList,
    .isVector, .isMap, .isAtom]

theorem answers_of_property {f : Core} {property : Value → Bool} (hf : f.property? = some property)
    (v : Value) : f.Answers [v] (.bool (property v)) := by
  cases f <;> cases hf <;> exact answers_of_run fun _ _ _ => rfl

theorem exists_property {f : Core} (hf : f ∈ typePredicates) :
    ∃ property, f.property? = some property := by
  have hall : ∀ f ∈ typePredicates, f.property?.isSome := by decide
  exact Option.isSome_iff_exists.1 (hall f hf)

theorem answers_meta (v : Value) : metaOf.Answers [v] v.info := answers_of_run fun _ _ _ => rfl

end Core

/-- Two values that differ in nothing that a program can find out without comparing them and without
looking at their metadata. -/
structure Value.Indistinguishable (v c : Value) : Prop where
  /-- All predicates on types have the same answers. -/
  predicates : ∀ f ∈ Core.typePredicates, ∃ answer,
    f.Answers [v] (.bool answer) ∧ f.Answers [c] (.bool answer)
  /-- The printed texts are the same, whatever atoms contain. -/
  printed : ∀ (s : Store) (mode : PrintMode), s.print mode c = s.print mode v
  elements : c.sequence? = v.sequence?
  entries : c.entries? = v.entries?
  /-- To apply one is to apply the other. -/
  applied : ∀ passes room args (s : Store),
    run passes room (.call c args) s = run passes room (.call v args) s
  /-- A call of a macro under some name is one and the same expansion, after the name is logged. -/
  expanded : v.isMacro = true → ∀ (nested : Nested) (args : List Value),
    ∃ expansion : Eval (Option Value), ∀ (s : Store) (scope owner : ScopeId) (name : String)
      (id : Identity) (marked : Bool) (info : Value),
      s.lookup? scope name = some (owner, v) ∨ s.lookup? scope name = some (owner, c) →
      expandOnce nested (.list id (.sym name :: args) marked info) scope s =
        expansion (s.record debugLevel expansionLogger ("Expanding macro " ++ name))

namespace Value

variable {v c info : Value} {id : Identity}

theorem withInfo?_of_takesMetadata (h : v.takesMetadata = true) (id : Identity) (info : Value) :
    ∃ c, v.withInfo? id info = some c := by
  cases v with
  | list | vec | map | closure | builtin => exact ⟨_, rfl⟩
  | _ => cases h

theorem withInfo?_eq_none (h : v.takesMetadata = false) (id : Identity) (info : Value) :
    v.withInfo? id info = none := by
  cases v with
  | list | vec | map | closure | builtin => cases h
  | _ => rfl

theorem info_of_withInfo? (h : v.withInfo? id info = some c) : c.info = info := by
  cases v <;> cases h <;> rfl

theorem places_of_withInfo? {root : ScopeId} (h : v.withInfo? id info = some c) {w : Value}
    (hw : c.equal w = true) : (.object, id) ∈ w.places root := by
  rw [equal_iff_mark] at hw
  cases v with
  | list | vec | map | closure =>
    cases h
    cases w with
    | builtin g wrapped j other => cases wrapped <;> cases hw
    | _ => cases hw <;> simp [places]
  | builtin f wrapped i old =>
    cases h
    cases w with
    | builtin g wrapped j other =>
      cases wrapped <;> cases hw
      cases g <;> simp [places]
    | _ => cases hw
  | _ => cases h

theorem print_of_withInfo? (h : v.withInfo? id info = some c) (s : Store) (mode : PrintMode) :
    s.print mode c = s.print mode v := by
  unfold Store.print
  cases v <;> cases h <;> cases s.contents.size <;> rfl

/-- Neither its identity nor its metadata plays a part when a value is applied. -/
theorem callValue_of_withInfo? (h : v.withInfo? id info = some c) (nested : Nested) (limit : ℕ)
    (args : List Value) (s : Store) :
    callValue nested limit c args s = callValue nested limit v args s := by
  -- Collections are no functions, and the text in the message is that of the clone.
  have hrefused (category : String) : (print .readable c >>= fun shown =>
        throw (.fault (.notCallable category shown)) : Eval Step) s =
      (print .readable v >>= fun shown => throw (.fault (.notCallable category shown))) s := by
    have hprint : print .readable c s = print .readable v s := by
      rw [print_eq, print_eq, print_of_withInfo? h]
    simp only [Bind.bind, EStateM.bind, hprint]
  cases v with
  | list | vec | map =>
    cases h
    exact hrefused _
  | closure | builtin =>
    cases h
    rfl
  | _ => cases h

theorem run_of_withInfo? (h : v.withInfo? id info = some c) (passes room : ℕ) (args : List Value)
    (s : Store) : run passes room (.call c args) s = run passes room (.call v args) s := by
  cases passes with
  | zero => rfl
  | succ passes =>
    have hpass (nested : Nested) : pass nested passes (.call c args) s =
        pass nested passes (.call v args) s := callValue_of_withInfo? h nested passes args s
    rw [run_succ, run_succ]
    simp only [Bind.bind, EStateM.bind, hpass]

/-- Two values that are the same macro apart from their identity and their metadata expand to the
same. -/
theorem exists_expansion (h : v.withInfo? id info = some c) (hm : v.isMacro = true)
    (nested : Nested) (args : List Value) :
    ∃ expansion : Eval (Option Value), ∀ (s : Store) (scope owner : ScopeId) (name : String)
      (id : Identity) (marked : Bool) (info : Value),
      s.lookup? scope name = some (owner, v) ∨ s.lookup? scope name = some (owner, c) →
      expandOnce nested (.list id (.sym name :: args) marked info) scope s =
        expansion (s.record debugLevel expansionLogger ("Expanding macro " ++ name)) := by
  cases v with
  | closure i params body captured isMacro old =>
    obtain rfl : isMacro = true := hm
    cases h
    refine ⟨enterCall captured params args >>= fun inner =>
      nested.eval body inner >>= fun expanded => pure (some expanded), ?_⟩
    rintro s scope owner name listId marked listInfo (hv | hc)
    · exact expandOnce_closure hv nested listId args marked listInfo
    · exact expandOnce_closure hc nested listId args marked listInfo
  | _ => cases hm

theorem indistinguishable_of_withInfo? (h : v.withInfo? id info = some c) :
    v.Indistinguishable c where
  predicates f hf := by
    obtain ⟨property, hproperty⟩ := Core.exists_property hf
    have hsame : property c = property v := by
      cases f <;> cases hproperty <;> cases v <;> cases h <;> rfl
    exact ⟨property v, Core.answers_of_property hproperty v,
      hsame ▸ Core.answers_of_property hproperty c⟩
  printed := print_of_withInfo? h
  elements := by cases v <;> cases h <;> rfl
  entries := by cases v <;> cases h <;> rfl
  applied := run_of_withInfo? h
  expanded := exists_expansion h

end Value

section

variable {v m c : Value} {s s' : Store}

theorem represent_eq_of_contents {shown : String} (h : s.represent v = .ok shown)
    (hcontents : s'.contents = s.contents) : represent v s' = .ok shown s' := by
  rw [represent_eq, Store.represent_of_contents hcontents, h]

theorem endsWith_withMeta (h : v.withInfo? s.nextIdentity m = some c) (wrapped : Bool)
    (id : Identity) (info : Value) :
    EndsWith (.call (.builtin (.core .withMeta) wrapped id info) [v, m]) s
      (.ok c { s with nextIdentity := s.nextIdentity + 1 }) := by
  refine Core.endsWith_of_run (fun nested limit => ?_) wrapped id info
  refine (bind_of_ok rfl).trans ((bind_of_ok rfl).trans ?_)
  simp only [h]
  rfl

theorem endsWith_withMeta_of_none (h : v.takesMetadata = false) {shown : String}
    (hshown : s.represent v = .ok shown) (wrapped : Bool) (id : Identity) (info : Value) :
    EndsWith (.call (.builtin (.core .withMeta) wrapped id info) [v, m]) s
      (.error (.fault (.primitive (.noMetadata shown)))
        { s with nextIdentity := s.nextIdentity + 1 }) := by
  obtain ⟨s', hs'⟩ : ∃ s' : Store, s' = { s with nextIdentity := s.nextIdentity + 1 } := ⟨_, rfl⟩
  have hcontents : s'.contents = s.contents := by rw [hs']
  have hfresh : fresh s = .ok s.nextIdentity s' := by
    rw [hs']
    rfl
  have hfault : Metadata.withInfo [v, m] s =
      .error (.fault (.primitive (.noMetadata shown))) s' := by
    refine (bind_of_ok rfl).trans ((bind_of_ok hfresh).trans ?_)
    simp only [Value.withInfo?_eq_none h]
    exact bind_of_ok (represent_eq_of_contents hshown hcontents)
  have hrun (nested : Nested) (limit : ℕ) : runBuiltin (.core .withMeta) nested limit [v, m] s =
      .error (.fault (.primitive (.noMetadata shown))) s' := inside_of_fault hfault
  have hended : Ended (.error (.fault (.primitive (.noMetadata shown))) s' : Result Value) :=
    trivial
  rw [← hs']
  exact (endsWithin_builtin hrun hended 0 wrapped id info).endsWith

end

/-- For a collection, a closure, a macro or a builtin, `with-meta` returns a new value that has the
given metadata and is indistinguishable from the value otherwise, and changes nothing: the value has
the metadata that it had. For a value of any other kind it raises an error, if the value has a text
for the message. -/
theorem withMeta_clones (v m : Value) (s : Store) (wrapped : Bool) (id : Identity) (info : Value) :
    (v.takesMetadata = true → ∃ c,
      EndsWith (.call (.builtin (.core .withMeta) wrapped id info) [v, m]) s
        (.ok c { s with nextIdentity := s.nextIdentity + 1 }) ∧
      (∀ root w, s.Has root w → c.equal w = false) ∧
      Core.metaOf.Answers [c] m ∧ Core.metaOf.Answers [v] v.info ∧ v.Indistinguishable c) ∧
    (v.takesMetadata = false → ∀ shown, s.represent v = .ok shown →
      EndsWith (.call (.builtin (.core .withMeta) wrapped id info) [v, m]) s
        (.error (.fault (.primitive (.noMetadata shown)))
          { s with nextIdentity := s.nextIdentity + 1 })) := by
  constructor
  · intro hv
    obtain ⟨c, hc⟩ := Value.withInfo?_of_takesMetadata hv s.nextIdentity m
    refine ⟨c, endsWith_withMeta hc wrapped id info, ?_, ?_, Core.answers_meta v,
      Value.indistinguishable_of_withInfo? hc⟩
    · intro root w hw
      refine Bool.eq_false_iff.2 fun hequal => ?_
      have hplace : (.object, s.nextIdentity) ∈ w.places root :=
        Value.places_of_withInfo? hc hequal
      exact absurd (hw (.here hplace)) (lt_irrefl s.nextIdentity)
    · exact Value.info_of_withInfo? hc ▸ Core.answers_meta c
  · intro hv shown hshown
    exact endsWith_withMeta_of_none hv hshown wrapped id info

/-- A macro that has metadata already, and a value without room for any. -/
theorem withMeta_clones_macro :
    (∃ c s', EndsWith (.call (.builtin (.core .withMeta) true 1 .nil)
        [.closure 2 ["x"] (.sym "x") rootScope true (.int 1), .str "again"]) (.empty 40)
        (.ok c s') ∧
      Core.metaOf.Answers [c] (.str "again") ∧
      Value.Indistinguishable (.closure 2 ["x"] (.sym "x") rootScope true (.int 1)) c) ∧
    ∃ s', EndsWith (.call (.builtin (.core .withMeta) true 1 .nil) [.nil, .nil]) (.empty 40)
      (.error (.fault (.primitive (.noMetadata "nil"))) s') := by
  constructor
  · obtain ⟨c, hcall, -, hmeta, -, hclone⟩ := (withMeta_clones
      (.closure 2 ["x"] (.sym "x") rootScope true (.int 1)) (.str "again") (.empty 40) true 1
      .nil).1 rfl
    exact ⟨c, _, hcall, hmeta, hclone⟩
  · exact ⟨_, (withMeta_clones .nil .nil (.empty 40) true 1 .nil).2 rfl "nil" rfl⟩

end SmallLisp
