import Mathlib.Tactic
import SmallLisp.Proofs.Discipline.Run
import SmallLisp.Proofs.World.Alike

/-!
# Changes of the stores of a world

What an evaluation does to a store: it takes an identity, makes a scope or an atom, binds a symbol,
replaces the content of an atom, writes a text and offers a record to the log. Done on both sides
with what matches, each of these leads to a later world in which the stores agree.
-/

namespace SmallLisp

namespace Store

variable {writable : Kind → Nat → Prop} {made : Kind → Nat} {s s' : Store}

theorem SameAt.of_eq (hscopes : s'.scopes = s.scopes) (hcontents : s'.contents = s.contents)
    (k : Kind) (i : Nat) : s.SameAt s' k i := by
  cases k with
  | scope => simp only [SameAt, scope?, hscopes]
  | atom => simp only [SameAt, content?, hcontents]
  | object => trivial

namespace Change

theorem silent (hcount : ∀ k, s'.count k = s.count k + made k)
    (hsame : ∀ {k i}, i < s.count k → ¬ writable k i → s.SameAt s' k i)
    (houtput : s'.output = s.output) (hlog : s'.log = s.log) (hlevel : s'.logLevel = s.logLevel) :
    Change writable { made } s s' where
  count := hcount
  same := hsame
  output := houtput.trans String.append_empty.symm
  log := by rw [hlog, List.filter_nil, List.append_nil]
  logLevel := hlevel

theorem fresh (s : Store) :
    Change writable { made := Pi.single .object 1 } s
      { s with nextIdentity := s.nextIdentity + 1 } := by
  refine silent (fun k => ?_) (fun _ _ => .of_eq rfl rfl _ _) rfl rfl rfl
  cases k <;> rfl

theorem write (s : Store) (text : String) : Change writable { text } s (s.write text) where
  count k := by cases k <;> rfl
  same _ _ := .of_eq rfl rfl _ _
  output := rfl
  log := by simp [Store.write]
  logLevel := rfl

theorem record (s : Store) (level : Nat) (logger message : String) :
    Change writable { records := [⟨level, logger, message⟩] } s
      (s.record level logger message) := by
  have hlog : (s.record level logger message).log.toList =
      s.log.toList ++ [⟨level, logger, message⟩].filter (s.logLevel ≤ ·.level) := by
    unfold Store.record
    by_cases hlevel : s.logLevel ≤ level <;> simp [hlevel]
  constructor
  · intro k
    cases k <;> unfold Store.record <;> split_ifs <;> rfl
  · intro k i _ _
    unfold Store.record
    split_ifs <;> exact .of_eq rfl rfl _ _
  · unfold Store.record
    split_ifs <;> exact String.append_empty.symm
  · exact hlog
  · unfold Store.record
    split_ifs <;> rfl

end Change

theorem sameAt_addScope (outer : Option ScopeId) (name : String) {k : Kind} {i : Nat}
    (hi : i < s.count k) : s.SameAt (s.addScope outer name).2 k i := by
  cases k with
  | scope =>
    have hne : i ≠ s.scopes.size := (show i < s.scopes.size from hi).ne
    rw [SameAt, scope?_addScope, if_neg hne]
  | atom | object => trivial

theorem sameAt_addContent (v : Value) {k : Kind} {i : Nat} (hi : i < s.count k) :
    s.SameAt (s.addContent v).2 k i := by
  cases k with
  | atom =>
    have hne : i ≠ s.contents.size := (show i < s.contents.size from hi).ne
    rw [SameAt, content?_addContent, if_neg hne]
  | scope | object => trivial

theorem sameAt_bind {id : ScopeId} (name : String) (v : Value) {k : Kind} {i : Nat}
    (h : k ≠ .scope ∨ i ≠ id) : s.SameAt (s.bind id name v) k i := by
  cases k with
  | scope => rw [SameAt, scope?_bind, if_neg (h.resolve_left (absurd rfl)).symm]
  | atom | object => trivial

theorem sameAt_setContent {a : Address} (v : Value) {k : Kind} {i : Nat}
    (h : k ≠ .atom ∨ i ≠ a) : s.SameAt (s.setContent a v) k i := by
  cases k with
  | atom =>
    change (s.contents.setIfInBounds a v)[i]? = s.contents[i]?
    rw [Array.getElem?_setIfInBounds_ne (h.resolve_left (absurd rfl)).symm]
  | scope | object => trivial

namespace Change

theorem addScope (s : Store) (outer : Option ScopeId) (name : String) :
    Change writable { made := Pi.single .scope 1 } s (s.addScope outer name).2 := by
  refine silent (fun k => ?_) (fun hi _ => sameAt_addScope outer name hi) rfl rfl rfl
  cases k with
  | scope => exact size_addScope
  | atom | object => rfl

theorem addContent (s : Store) (v : Value) :
    Change writable { made := Pi.single .atom 1 } s (s.addContent v).2 := by
  refine silent (fun k => ?_) (fun hi _ => sameAt_addContent v hi) rfl rfl rfl
  cases k with
  | atom => exact size_addContent
  | scope | object => rfl

theorem bind {id : ScopeId} (hid : writable .scope id) (name : String) (v : Value) :
    Change writable {} s (s.bind id name v) := by
  refine silent (fun k => ?_) (fun _ hnot => sameAt_bind name v ?_) rfl rfl rfl
  · cases k with
    | scope => exact size_bind
    | atom | object => rfl
  · by_contra hboth
    rw [not_or, not_not, not_not] at hboth
    exact hnot (hboth.1 ▸ hboth.2 ▸ hid)

theorem setContent {a : Address} (ha : writable .atom a) (v : Value) :
    Change writable {} s (s.setContent a v) := by
  refine silent (fun k => ?_) (fun _ hnot => sameAt_setContent v ?_) rfl rfl rfl
  · cases k with
    | atom => exact size_setContent
    | scope | object => rfl
  · by_contra hboth
    rw [not_or, not_not, not_not] at hboth
    exact hnot (hboth.1 ▸ hboth.2 ▸ ha)

end Change

end Store

namespace World

open Eval

variable {root root' : ScopeId} {W : World root root'}

theorem alike_fresh : W.Alike fresh fresh fun W' i j => W'.pairs .object i j := by
  intro hW
  have hlater := later_add (W := W) (k := .object) (.fresh W.left) (.fresh W.right)
  have hagree := hW.add hlater ⟨Nat.lt_succ_self _, Nat.lt_succ_self _⟩
    (fun _ => .of_eq rfl rfl _ _) (fun _ => .of_eq rfl rfl _ _)
  exact ⟨_, hlater, hagree, .ok (.inr ⟨rfl, rfl, rfl⟩)⟩

theorem alike_write (text : String) :
    W.Alike (modify fun s => s.write text) (modify fun s => s.write text) Same := by
  intro hW
  have hlater := later_withStores (W := W) rfl (.write W.left text) (.write W.right text)
  have hagree : (W.withStores (W.left.write text) (W.right.write text)).Agree :=
    hW.keep (fun _ => .of_eq rfl rfl _ _) (fun _ => .of_eq rfl rfl _ _) le_rfl le_rfl
  exact ⟨_, hlater, hagree, .ok rfl⟩

theorem alike_debug (logger message : String) :
    W.Alike (debug logger message) (debug logger message) Same := by
  intro hW
  have hlater := later_withStores (W := W) rfl (.record W.left debugLevel logger message)
    (.record W.right debugLevel logger message)
  have hsame (s : Store) (k : Kind) (i : Nat) :
      s.SameAt (s.record debugLevel logger message) k i := by
    unfold Store.record
    split_ifs <;> exact .of_eq rfl rfl _ _
  have hidentity (s : Store) :
      s.nextIdentity ≤ (s.record debugLevel logger message).nextIdentity := by
    unfold Store.record
    split_ifs <;> exact le_rfl
  exact ⟨_, hlater, hW.keep (fun _ => hsame _ _ _) (fun _ => hsame _ _ _) (hidentity _)
    (hidentity _), .ok rfl⟩

theorem alike_addScope {outer outer' : ScopeId} (houter : W.pairs .scope outer outer')
    (name : String) :
    W.Alike (Eval.addScope (some outer) name) (Eval.addScope (some outer') name)
      fun W' i j => W'.pairs .scope i j := by
  intro hW
  have hlater := later_add (W := W) (k := .scope) (.addScope W.left (some outer) name)
    (.addScope W.right (some outer') name)
  have hnew (s : Store) (outer : ScopeId) : (s.addScope (some outer) name).2.scope? s.scopes.size =
      some ⟨name, some outer, []⟩ := by
    rw [Store.scope?_addScope, if_pos rfl]
  refine ⟨_, hlater, hW.add hlater ?_ (Store.sameAt_addScope _ _) (Store.sameAt_addScope _ _),
    .ok (.inr ⟨rfl, rfl, rfl⟩)⟩
  refine ⟨_, _, hnew W.left outer, hnew W.right outer', rfl, .some ⟨hlater.mono houter, ?_⟩, .nil⟩
  exact ⟨hW.left_lt houter, hW.right_lt houter⟩

theorem bindings_set {b b' : Bindings} {name : String} {v w : Value}
    (h : List.Forall₂ (fun x y => x.1 = y.1 ∧ W.Matches x.2 y.2) b b') (hvw : W.Matches v w) :
    List.Forall₂ (fun x y => x.1 = y.1 ∧ W.Matches x.2 y.2) (b.set name v) (b'.set name w) := by
  induction h with
  | nil => exact .cons ⟨rfl, hvw⟩ .nil
  | @cons x y _ _ hxy hrest ih =>
    obtain ⟨n, x⟩ := x
    obtain ⟨n', y⟩ := y
    obtain ⟨rfl, hxy⟩ := hxy
    unfold Bindings.set
    split_ifs
    · exact .cons ⟨rfl, hvw⟩ hrest
    · exact .cons ⟨rfl, hxy⟩ ih

theorem scope?_bind_self {s : Store} {id : ScopeId} {scope : Scope}
    (h : s.scope? id = some scope) (name : String) (v : Value) : (s.bind id name v).scope? id =
      some { scope with bindings := scope.bindings.set name v } := by
  rw [Store.scope?_bind, if_pos rfl, h]
  rfl

theorem alike_bind {i j : ScopeId} (hij : W.pairs .scope i j) (name : String) {v w : Value}
    (hvw : W.Matches v w) :
    W.Alike (modify fun s => s.bind i name v) (modify fun s => s.bind j name w) Same := by
  intro hW
  have hlater := later_withStores (W := W) rfl (.bind ⟨j, hij⟩ name v) (.bind ⟨i, hij⟩ name w)
  refine ⟨_, hlater, hW.write hlater hij ?_ (Store.sameAt_bind name v) (Store.sameAt_bind name w),
    .ok rfl⟩
  obtain ⟨a, b, ha, hb, hab⟩ := hW.place hij
  refine ⟨_, _, scope?_bind_self ha name v, scope?_bind_self hb name w, ?_⟩
  have hab := hab.mono hlater.mono
  exact ⟨hab.name, hab.outer, bindings_set hab.bindings (hvw.later hlater)⟩

theorem alike_addContent {v w : Value} (hvw : W.Matches v w) :
    W.Alike
      (fun s => let (a, s') := s.addContent v; .ok (Value.atom a) s')
      (fun s => let (a, s') := s.addContent w; .ok (Value.atom a) s') Matches := by
  intro hW
  have hlater := later_add (W := W) (k := .atom) (.addContent W.left v) (.addContent W.right w)
  have hnew (s : Store) (v : Value) : (s.addContent v).2.content? s.contents.size = some v := by
    rw [Store.content?_addContent, if_pos rfl]
  refine ⟨_, hlater, hW.add hlater ?_ (Store.sameAt_addContent v) (Store.sameAt_addContent w),
    .ok (.atom (.inr ⟨rfl, rfl, rfl⟩))⟩
  exact ⟨v, w, hnew W.left v, hnew W.right w, hvw.later hlater⟩

theorem alike_setContent {a b : Address} (hab : W.pairs .atom a b) {v w : Value}
    (hvw : W.Matches v w) :
    W.Alike (modify fun s => s.setContent a v) (modify fun s => s.setContent b w) Same := by
  intro hW
  have hlater := later_withStores (W := W) rfl (.setContent ⟨b, hab⟩ v) (.setContent ⟨a, hab⟩ w)
  have hset {s : Store} {a : Address} (ha : a < s.contents.size) (v : Value) :
      (s.setContent a v).content? a = some v := by
    simp [Store.content?, Store.setContent, ha]
  refine ⟨_, hlater, hW.write hlater hab ?_ (Store.sameAt_setContent v)
    (Store.sameAt_setContent w), .ok rfl⟩
  exact ⟨v, w, hset (hW.left_lt hab) v, hset (hW.right_lt hab) w, hvw.later hlater⟩

end World

end SmallLisp
