import Mathlib.Tactic
import SmallLisp.Interpreter
import SmallLisp.Proofs.Discipline.Scope
import SmallLisp.Proofs.Eval.Within
import SmallLisp.Proofs.Value.Content

/-!
# Tail contexts

The forms around a form in tail position, nested in one another at will: a branch of an `if`, the
last form of a `do` or a `let`, and the handler of a `try`. Everything else in them is a literal, so
that they are gone through without a trace in the scopes that were there before, and without taking
more than one nested activation of their own at a time.
-/

namespace SmallLisp

namespace Datum

/-- A datum that stands for itself and is no collection. -/
def isLiteral : Datum → Bool
  | nil | bool _ | int _ | float _ | nan | str _ | kw _ => true
  | sym _ | list _ | vec _ | map _ => false

def isTruthy : Datum → Bool
  | nil => false
  | bool b => b
  | _ => true

/-- The value that holds a datum, if there is only one. -/
def only? : Datum → Option Value
  | nil => some .nil
  | bool b => some (.bool b)
  | int n => some (.int n)
  | float x => some (.float x)
  | str text => some (.str text)
  | sym name => some (.sym name)
  | kw name => some (.kw name)
  | nan | list _ | vec _ | map _ => none

end Datum

abbrev Literal := { d : Datum // d.isLiteral = true }

/-- The symbols that a loop around a tail context uses. -/
def loopNames : List String := ["loop", "n", "=", "-", "throw"]

abbrev FreshName := { name : String // name ∉ loopNames }

/-- A form with a hole in tail position. Conditions and other subforms are literals. -/
inductive TailContext where
  | hole
  | consequent (condition : Literal) (holds : condition.1.isTruthy = true)
      (other : Option Literal) (inner : TailContext)
  | alternative (condition : Literal) (fails : condition.1.isTruthy = false)
      (other : Literal) (inner : TailContext)
  | last (forms : List Literal) (inner : TailContext)
  | body (square : Bool) (bindings : List (FreshName × Literal)) (forms : List Literal)
      (inner : TailContext)
  | handler (inner : TailContext)

namespace TailContext

/-- The symbols and literals of a binding list, which may be written as a list or as a vector. -/
def binders (square : Bool) (bindings : List (FreshName × Literal)) : Datum :=
  let items := bindings.flatMap fun entry => [.sym entry.1.1, entry.2.1]
  if square then .vec items else .list items

/-- The form with another form in the place of the hole. -/
def fill : TailContext → Datum → Datum
  | hole, d => d
  | consequent condition _ other inner, d =>
    .list (.sym "if" :: condition.1 :: inner.fill d :: (other.map (·.1)).toList)
  | alternative condition _ other inner, d =>
    .list [.sym "if", condition.1, other.1, inner.fill d]
  | last forms inner, d => .list (.sym "do" :: (forms.map (·.1) ++ [inner.fill d]))
  | body square bindings forms inner, d =>
    .list (.sym "let" :: binders square bindings :: (forms.map (·.1) ++ [inner.fill d]))
  | handler inner, d =>
    .list [.sym "try", .list [.sym "throw", .int 0], .list [.sym "catch", .sym "e", inner.fill d]]

end TailContext

namespace Value

theorem eq_of_only? {v w : Value} {d : Datum} (hv : v.datum? = some d) (hd : d.only? = some w) :
    v = w := by
  cases v with
  | list | vec | map =>
    obtain ⟨_, _, rfl⟩ := Option.map_eq_some_iff.1 hv
    cases hd
  | nan =>
    obtain rfl := Option.some.inj hv
    cases hd
  | pair | atom | closure | builtin => cases hv
  | _ =>
    obtain rfl := Option.some.inj hv
    exact Option.some.inj hd

abbrev Hold (vs : List Value) (ds : List Datum) : Prop :=
  List.Forall₂ (fun v d => v.datum? = some d) vs ds

theorem hold_of_datums? {vs : List Value} {ds : List Datum} (h : datums? vs = some ds) :
    Hold vs ds := by
  induction vs generalizing ds with
  | nil =>
    obtain rfl := Option.some.inj h
    exact .nil
  | cons v vs ih =>
    obtain ⟨d, hd, hrest⟩ := Option.bind_eq_some_iff.1 h
    obtain ⟨rest, hvs, rfl⟩ := Option.map_eq_some_iff.1 hrest
    exact .cons hd (ih hvs)

theorem hold_one {vs : List Value} {d : Datum} (h : Hold vs [d]) :
    ∃ v, v.datum? = some d ∧ vs = [v] := by
  obtain ⟨v, rest, hv, hrest, rfl⟩ := List.forall₂_cons_right_iff.1 h
  obtain rfl := List.forall₂_nil_right_iff.1 hrest
  exact ⟨v, hv, rfl⟩

theorem hold_two {vs : List Value} {d e : Datum} (h : Hold vs [d, e]) :
    ∃ v w, v.datum? = some d ∧ w.datum? = some e ∧ vs = [v, w] := by
  obtain ⟨v, rest, hv, hrest, rfl⟩ := List.forall₂_cons_right_iff.1 h
  obtain ⟨w, hw, rfl⟩ := hold_one hrest
  exact ⟨v, w, hv, hw, rfl⟩

theorem hold_append {vs : List Value} {ds : List Datum} {d : Datum} (h : Hold vs (ds ++ [d])) :
    ∃ us v, vs = us ++ [v] ∧ Hold us ds ∧ v.datum? = some d := by
  have hlast := List.forall₂_drop_append vs ds [d] h
  obtain ⟨v, hv, hdrop⟩ := hold_one hlast
  exact ⟨vs.take ds.length, v, by rw [← hdrop, List.take_append_drop],
    List.forall₂_take_append vs ds [d] h, hv⟩

theorem exists_list {v : Value} {ds : List Datum} (h : v.datum? = some (.list ds)) :
    ∃ id items marked info, v = .list id items marked info ∧ Hold items ds := by
  cases v with
  | list id items marked info =>
    obtain ⟨ds', hds, heq⟩ := Option.map_eq_some_iff.1 h
    obtain rfl := Datum.list.inj heq
    exact ⟨id, items, marked, info, rfl, hold_of_datums? hds⟩
  | vec | map =>
    obtain ⟨_, _, heq⟩ := Option.map_eq_some_iff.1 h
    cases heq
  | _ => cases h

theorem exists_call {v : Value} {name : String} {ds : List Datum}
    (h : v.datum? = some (.list (.sym name :: ds))) :
    ∃ id args marked info, v = .list id (.sym name :: args) marked info ∧ Hold args ds := by
  obtain ⟨id, items, marked, info, rfl, hitems⟩ := exists_list h
  obtain ⟨head, args, hhead, hargs, rfl⟩ := List.forall₂_cons_right_iff.1 hitems
  obtain rfl := eq_of_only? hhead rfl
  exact ⟨id, args, marked, info, rfl, hargs⟩

theorem exists_sequence {v : Value} {square : Bool} {ds : List Datum}
    (h : v.datum? = some (if square then .vec ds else .list ds)) :
    ∃ items, v.sequence? = some items ∧ Hold items ds := by
  cases square with
  | false =>
    obtain ⟨id, items, marked, info, rfl, hitems⟩ := exists_list h
    exact ⟨items, rfl, hitems⟩
  | true =>
    cases v with
    | vec id items info =>
      obtain ⟨ds', hds, heq⟩ := Option.map_eq_some_iff.1 h
      obtain rfl := Datum.vec.inj heq
      exact ⟨items, rfl, hold_of_datums? hds⟩
    | list | map =>
      obtain ⟨_, _, heq⟩ := Option.map_eq_some_iff.1 h
      cases heq
    | _ => cases h

end Value

namespace Store

variable {root : Bindings} {s s' : Store} {id : ScopeId} {layers : List Bindings}

/-- There is nothing around the root scope, and it binds what is said. -/
def HasRoot (root : Bindings) (s : Store) : Prop :=
  s.scope? rootScope = some ⟨Interpreter.rootName, none, root⟩

/-- What the scopes from one scope outwards bind, up to the root scope. -/
inductive Layered (root : Bindings) (s : Store) : ScopeId → List Bindings → Prop
  | root : s.HasRoot root → Layered root s rootScope []
  | inner {id outer : ScopeId} {name : String} {b : Bindings} {layers : List Bindings} :
      s.scope? id = some ⟨name, some outer, b⟩ → outer < id → Layered root s outer layers →
      Layered root s id (b :: layers)

theorem Layered.hasRoot (h : Layered root s id layers) : s.HasRoot root := by
  induction h with
  | root h => exact h
  | inner _ _ _ ih => exact ih

theorem Layered.lt_size (h : Layered root s id layers) : id < s.scopes.size := by
  cases h with
  | root h => exact Discipline.lt_of_scope? h
  | inner h => exact Discipline.lt_of_scope? h

theorem Layered.lookup (h : Layered root s id layers) (name : String) :
    (s.lookup? id name).map (·.2) = (layers ++ [root]).findSome? (·.get? name) := by
  suffices hbound : ∀ bound, id < bound →
      (s.lookupFrom name bound id).map (·.2) = (layers ++ [root]).findSome? (·.get? name) from
    hbound (id + 1) (Nat.lt_succ_self id)
  intro bound hlt
  induction h generalizing bound with
  | root h =>
    obtain ⟨bound, rfl⟩ := Nat.exists_eq_add_of_le' (Nat.one_le_of_lt hlt)
    have hscope : s.scope? rootScope = some ⟨Interpreter.rootName, none, root⟩ := h
    rw [lookupFrom, hscope]
    dsimp only
    cases hname : root.get? name <;> simp [hname]
  | @inner id outer scopeName b layers hscope houter _ ih =>
    obtain ⟨bound, rfl⟩ := Nat.exists_eq_add_of_le' (Nat.one_le_of_lt hlt)
    rw [lookupFrom, hscope]
    dsimp only
    cases hname : b.get? name with
    | some v => simp [hname]
    | none =>
      rw [List.cons_append, List.findSome?_cons, hname]
      exact ih bound (lt_of_lt_of_le houter (Nat.le_of_lt_succ hlt))

/-- Scopes that are added change nothing for the scopes that were there. -/
theorem Layered.of_prefix (h : Layered root s id layers)
    (hscopes : ∀ id < s.scopes.size, s'.scope? id = s.scope? id) : Layered root s' id layers := by
  induction h with
  | root h => exact .root ((hscopes _ (Discipline.lt_of_scope? h)).trans h)
  | inner h houter _ ih =>
    exact .inner ((hscopes _ (Discipline.lt_of_scope? h)).trans h) houter ih

/-- A new scope with its bindings is a new layer. -/
theorem Layered.push (h : Layered root s id layers) {name : String} {b : Bindings}
    (hscopes : s'.scopes = s.scopes.push ⟨name, some id, b⟩) :
    Layered root s' s.scopes.size (b :: layers) := by
  have hold (other : ScopeId) (hother : other < s.scopes.size) :
      s'.scope? other = s.scope? other := by
    unfold scope?
    rw [hscopes, Array.getElem?_push, if_neg hother.ne]
  have hnew : s'.scope? s.scopes.size = some ⟨name, some id, b⟩ := by
    unfold scope?
    rw [hscopes, Array.getElem?_push_size]
  exact .inner hnew h.lt_size (h.of_prefix hold)

end Store

theorem Bindings.mem_of_get? {b : Bindings} {name : String} {v : Value}
    (h : b.get? name = some v) : (name, v) ∈ b := by
  induction b with
  | nil => cases h
  | cons entry rest ih =>
    obtain ⟨other, w⟩ := entry
    unfold get? at h
    split_ifs at h with heq
    · obtain rfl := Option.some.inj h
      exact beq_iff_eq.1 heq ▸ List.mem_cons_self
    · exact List.mem_cons_of_mem _ (ih h)

/-- Bindings that hide nothing that a loop uses, and bind no macro. -/
def Bindings.Harmless (b : Bindings) : Prop :=
  ∀ name v, b.get? name = some v → name ∉ loopNames ∧ v.isMacro = false

theorem Bindings.Harmless.nil : Harmless [] := nofun

theorem Bindings.Harmless.set {b : Bindings} (h : b.Harmless) {name : String}
    (hname : name ∉ loopNames) {v : Value} (hv : v.isMacro = false) : (b.set name v).Harmless := by
  intro other w hw
  rw [get?_set] at hw
  split_ifs at hw with heq
  · obtain rfl := Option.some.inj hw
    exact ⟨heq ▸ hname, hv⟩
  · exact h other w hw

end SmallLisp
