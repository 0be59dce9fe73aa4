import Mathlib.Tactic
import SmallLisp.Proofs.Discipline.Basic

/-!
# Disciplines and the store

Every operation on the store leaves a good store behind, and the computations that are made of
these operations keep the discipline.
-/

namespace SmallLisp

namespace Store

variable {s : Store} {id other : ScopeId} {name text : String} {v w : Value}

theorem scope?_bind : (s.bind id name v).scope? other =
    if id = other then
      (s.scope? other).map fun scope => { scope with bindings := scope.bindings.set name v }
    else s.scope? other := by
  unfold scope? bind
  rw [Array.getElem?_modify]

theorem own?_bind (h : (s.bind id name v).own? other text = some w) :
    w = v ∨ s.own? other text = some w := by
  unfold own? at h ⊢
  rw [scope?_bind] at h
  split_ifs at h with hid
  · cases hscope : s.scope? other with
    | none => simp [hscope] at h
    | some scope =>
      rw [hscope] at h
      simp only [Option.map_some, Option.bind_some, Bindings.get?_set] at h ⊢
      split_ifs at h
      · exact .inl (Option.some.inj h).symm
      · exact .inr h
  · exact .inr h

theorem outer_bind {scope : Scope} (h : (s.bind id name v).scope? other = some scope) :
    ∃ scope', s.scope? other = some scope' ∧ scope'.outer = scope.outer := by
  rw [scope?_bind] at h
  split_ifs at h with hid
  · obtain ⟨scope', hscope, rfl⟩ := Option.map_eq_some_iff.1 h
    exact ⟨scope', hscope, rfl⟩
  · exact ⟨scope, h, rfl⟩

theorem scope?_addScope {outer : Option ScopeId} : (s.addScope outer name).2.scope? other =
    if other = s.scopes.size then some ⟨name, outer, []⟩ else s.scope? other := by
  unfold scope? addScope
  rw [Array.getElem?_push]

theorem content?_addContent {a : Address} : (s.addContent v).2.content? a =
    if a = s.contents.size then some v else s.content? a := by
  unfold content? addContent
  rw [Array.getElem?_push]

theorem content?_setContent_self {a : Address} (h : a < s.contents.size) :
    (s.setContent a v).content? a = some v :=
  Array.getElem?_setIfInBounds_self_of_lt h

theorem content?_setContent {a b : Address} (h : (s.setContent a v).content? b = some w) :
    w = v ∨ s.content? b = some w := by
  unfold content? setContent at h
  rw [Array.getElem?_setIfInBounds] at h
  split_ifs at h with hab hsize
  · exact .inl (Option.some.inj h).symm
  · exact .inr h

@[simp] theorem size_bind : (s.bind id name v).scopes.size = s.scopes.size := by
  simp [bind]

@[simp] theorem size_addScope {outer : Option ScopeId} :
    (s.addScope outer name).2.scopes.size = s.scopes.size + 1 := by
  simp [addScope]

@[simp] theorem size_addContent : (s.addContent v).2.contents.size = s.contents.size + 1 := by
  simp [addContent]

@[simp] theorem size_setContent {a : Address} :
    (s.setContent a v).contents.size = s.contents.size := by
  simp [setContent]

theorem bind_push (s : Store) (scope : Scope) (name : String) (v : Value) :
    { s with scopes := s.scopes.push scope }.bind s.scopes.size name v =
      { s with
        scopes := s.scopes.push { scope with bindings := scope.bindings.set name v } } := by
  unfold bind
  congr 1
  apply Array.ext_getElem?
  intro id
  rw [Array.getElem?_modify, Array.getElem?_push, Array.getElem?_push]
  split_ifs with hid hid'
  · rfl
  · exact absurd hid.symm hid'
  · exact absurd ‹id = s.scopes.size›.symm hid
  · rfl

/-- What exists in a store is the same in another store. -/
structure Untouched (s s' : Store) : Prop where
  scopes : ∀ id scope, s.scope? id = some scope → s'.scope? id = some scope
  contents : s'.contents = s.contents
  output : s'.output = s.output
  log : s'.log = s.log

theorem Untouched.refl (s : Store) : s.Untouched s := ⟨fun _ _ h => h, rfl, rfl, rfl⟩

theorem untouched_of_scopes {s' : Store} {scope : Scope} (hscopes : s'.scopes = s.scopes.push scope)
    (hcontents : s'.contents = s.contents) (houtput : s'.output = s.output)
    (hlog : s'.log = s.log) : s.Untouched s' := by
  refine ⟨fun id scope' h => ?_, hcontents, houtput, hlog⟩
  have hlt : id < s.scopes.size := (Array.getElem?_eq_some_iff.1 h).1
  unfold scope? at h ⊢
  rw [hscopes, Array.getElem?_push, if_neg hlt.ne, h]

end Store

namespace Discipline

variable {D : Discipline} {s s' : Store} {v : Value} {α β : Type}

theorem Good.congr (h : D.Good s) (hlater : D.later s s') (hscopes : s'.scopes = s.scopes)
    (hcontents : s'.contents = s.contents) : D.Good s' := by
  have hscope (id : ScopeId) : s'.scope? id = s.scope? id := by
    unfold Store.scope?
    rw [hscopes]
  have hcontent (a : Address) : s'.content? a = s.content? a := by
    unfold Store.content?
    rw [hcontents]
  constructor
  · intro id name w hid hw
    rw [hscopes] at hid
    unfold Store.own? at hw
    rw [hscope] at hw
    exact (h.binding hid hw).later hlater
  · intro id outer scope hid hid' houter
    rw [hscopes] at hid
    rw [hscope] at hid'
    exact h.outer hid hid' houter
  · intro a w ha hw
    rw [hcontents] at ha
    rw [hcontent] at hw
    exact (h.content ha hw).later hlater
  · exact h.scopeCount_le.trans (D.scopes_le hlater)
  · exact h.atomCount_le.trans (D.contents_le hlater)

theorem Good.bind (h : D.Good s) {id : ScopeId} (hid : D.current s.scopes.size id)
    (hv : D.Holds s v) (name : String) : D.Good (s.bind id name v) := by
  have hlater := D.bind hid name v
  constructor
  · intro other text w hother hw
    rw [Store.size_bind] at hother
    rcases Store.own?_bind hw with rfl | hw
    · exact hv.later hlater
    · exact (h.binding hother hw).later hlater
  · intro other outer scope hother hscope houter
    rw [Store.size_bind] at hother
    obtain ⟨scope', hscope', heq⟩ := Store.outer_bind hscope
    exact h.outer hother hscope' (heq.trans houter)
  · intro a w ha hw
    exact (h.content ha hw).later hlater
  · exact h.scopeCount_le.trans (D.scopes_le hlater)
  · exact h.atomCount_le.trans (D.contents_le hlater)

theorem Good.addScope (h : D.Good s) {outer : ScopeId} (houter : D.captured s.scopes.size outer)
    (name : String) : D.Good (s.addScope (some outer) name).2 := by
  have hlater := D.addScope houter name
  constructor
  · intro other text w hother hw
    unfold Store.own? at hw
    rw [Store.scope?_addScope] at hw
    split_ifs at hw with hnew
    · simp at hw
    · rw [Store.size_addScope] at hother
      have hother := (D.captured_succ hother).resolve_right hnew
      exact (h.binding hother hw).later hlater
  · intro other outer' scope hother hscope hscopeOuter
    rw [Store.scope?_addScope] at hscope
    split_ifs at hscope with hnew
    · obtain rfl := Option.some.inj hscope
      obtain rfl := Option.some.inj hscopeOuter
      exact hnew ▸ houter
    · rw [Store.size_addScope] at hother
      have hother := (D.captured_succ hother).resolve_right hnew
      exact h.outer hother hscope hscopeOuter
  · intro a w ha hw
    exact (h.content ha hw).later hlater
  · exact h.scopeCount_le.trans (D.scopes_le hlater)
  · exact h.atomCount_le.trans (D.contents_le hlater)

theorem Good.addContent (h : D.Good s) (hv : D.Holds s v) : D.Good (s.addContent v).2 := by
  have hlater := hv.later_addContent
  constructor
  · intro id name w hid hw
    exact (h.binding hid hw).later hlater
  · intro id outer scope hid hscope houter
    exact h.outer hid hscope houter
  · intro a w ha hw
    rw [Store.content?_addContent] at hw
    split_ifs at hw with hnew
    · exact Option.some.inj hw ▸ hv.later hlater
    · rw [Store.size_addContent] at ha
      exact (h.content ((D.address_succ ha).resolve_right hnew) hw).later hlater
  · exact h.scopeCount_le.trans (D.scopes_le hlater)
  · exact h.atomCount_le.trans (D.contents_le hlater)

theorem Good.setContent [D.Rewriting] (h : D.Good s) {a : Address}
    (ha : D.address s.contents.size a) (hv : D.Holds s v) : D.Good (s.setContent a v) := by
  have hlater : D.later s (s.setContent a v) := Rewriting.setContent ha v
  constructor
  · intro id name w hid hw
    exact (h.binding hid hw).later hlater
  · intro id outer scope hid hscope houter
    exact h.outer hid hscope houter
  · intro b w hb hw
    rw [Store.size_setContent] at hb
    rcases Store.content?_setContent hw with rfl | hw
    · exact hv.later hlater
    · exact (h.content hb hw).later hlater
  · exact h.scopeCount_le.trans (D.scopes_le hlater)
  · exact h.atomCount_le.trans (D.contents_le hlater)

end Discipline

end SmallLisp
