import Mathlib.Tactic
import SmallLisp.Proofs.World.Basic

/-!
# What can be reached

Values refer to scopes, atoms and objects. From places that are given one can reach those that their
scopes and contents refer to, and so on. A store is sound when all that it refers to is in use. In a
world whose stores agree nothing but paired places can be reached from paired places, and a sound
store agrees with every store that holds the same in what can be reached from some places.
-/

namespace SmallLisp

namespace Value

/-- The values that a value is made of. -/
def parts : Value → List Value
  | list _ items _ info => info :: items
  | vec _ items info => info :: items
  | map _ entries _ info => info :: (entries.map (·.1) ++ entries.map (·.2))
  | pair _ first second => [first, second]
  | closure _ _ body _ _ info => [info, body]
  | builtin _ _ _ info => [info]
  | _ => []

/-- The places that a value names itself. The builtin `eval` names the root scope of its
interpreter. -/
def places (root : ScopeId) : Value → List (Kind × Nat)
  | nan id => [(.object, id)]
  | list id _ _ _ => [(.object, id)]
  | vec id _ _ => [(.object, id)]
  | map id _ _ _ => [(.object, id)]
  | pair id _ _ => [(.object, id)]
  | atom a => [(.atom, a)]
  | closure id _ _ scope _ _ => [(.object, id), (.scope, scope)]
  | builtin .eval _ id _ => [(.object, id), (.scope, root)]
  | builtin _ _ id _ => [(.object, id)]
  | _ => []

/-- A value refers to the places that it names or that its parts refer to. -/
inductive Refers (root : ScopeId) : Value → Kind → Nat → Prop
  | here {v : Value} {k : Kind} {i : Nat} : (k, i) ∈ v.places root → Refers root v k i
  | part {v p : Value} {k : Kind} {i : Nat} : p ∈ v.parts → Refers root p k i → Refers root v k i

theorem eq_atom_of_mem_places {root : ScopeId} {v : Value} {a : Address}
    (h : (.atom, a) ∈ v.places root) : v = .atom a := by
  cases v with
  | builtin f wrapped id info => cases f <;> simp [places] at h
  | _ => simp_all [places]

theorem sizeOf_lt_of_mem_parts {v p : Value} (h : p ∈ v.parts) : sizeOf p < sizeOf v := by
  cases v with
  | list id items marked info =>
    rcases List.mem_cons.1 h with rfl | hitem
    · simp
    · have := List.sizeOf_lt_of_mem hitem
      simp
      omega
  | vec id items info =>
    rcases List.mem_cons.1 h with rfl | hitem
    · simp
    · have := List.sizeOf_lt_of_mem hitem
      simp
      omega
  | map id entries marked info =>
    have hentry : ∀ e ∈ entries, sizeOf e.1 + sizeOf e.2 < sizeOf entries := by
      rintro ⟨key, value⟩ he
      have := List.sizeOf_lt_of_mem he
      simp at this
      simp
      omega
    rcases List.mem_cons.1 h with rfl | hpart
    · simp
    · rcases List.mem_append.1 hpart with hkey | hvalue
      · obtain ⟨e, he, rfl⟩ := List.mem_map.1 hkey
        have := hentry e he
        simp
        omega
      · obtain ⟨e, he, rfl⟩ := List.mem_map.1 hvalue
        have := hentry e he
        simp
        omega
  | pair id first second =>
    rcases List.mem_cons.1 h with rfl | hsecond
    · simp
      omega
    · obtain rfl := List.mem_singleton.1 hsecond
      simp
  | closure id params body scope isMacro info =>
    rcases List.mem_cons.1 h with rfl | hbody
    · simp
    · obtain rfl := List.mem_singleton.1 hbody
      simp
      omega
  | builtin f wrapped id info =>
    obtain rfl := List.mem_singleton.1 h
    simp
  | _ => cases h

/-- What holds of a value when it holds of its parts holds of all values. -/
theorem parts_induction {motive : Value → Prop}
    (h : ∀ v, (∀ p ∈ v.parts, motive p) → motive v) (v : Value) : motive v :=
  h v fun p _ => parts_induction h p
termination_by sizeOf v
decreasing_by exact sizeOf_lt_of_mem_parts ‹_›

end Value

namespace Store

variable {root : ScopeId} {s t : Store} {start start' : Kind → Nat → Prop} {v : Value}

/-- What can be reached in a store from given places: through the scopes around a scope, the values
that it binds and the contents of atoms. -/
inductive Reach (root : ScopeId) (s : Store) (start : Kind → Nat → Prop) : Kind → Nat → Prop
  | start {k : Kind} {i : Nat} : start k i → Reach root s start k i
  | outer {i o : ScopeId} {scope : Scope} : Reach root s start .scope i →
      s.scope? i = some scope → scope.outer = some o → Reach root s start .scope o
  | binding {i : ScopeId} {scope : Scope} {entry : String × Value} {k : Kind} {j : Nat} :
      Reach root s start .scope i → s.scope? i = some scope → entry ∈ scope.bindings →
      entry.2.Refers root k j → Reach root s start k j
  | content {a : Address} {v : Value} {k : Kind} {j : Nat} : Reach root s start .atom a →
      s.content? a = some v → v.Refers root k j → Reach root s start k j

/-- All places that a value refers to are in use. -/
def Has (s : Store) (root : ScopeId) (v : Value) : Prop :=
  ∀ {k : Kind} {i : Nat}, v.Refers root k i → i < s.count k

/-- Scopes are made after the scopes around them, and all that is bound or kept in an atom refers to
places in use. So does the literal NaN. -/
structure Sound (root : ScopeId) (s : Store) : Prop where
  literal : Value.literalNan < s.nextIdentity
  outer {i o : ScopeId} {scope : Scope} : s.scope? i = some scope → scope.outer = some o → o < i
  binding {i : ScopeId} {scope : Scope} {entry : String × Value} : s.scope? i = some scope →
    entry ∈ scope.bindings → s.Has root entry.2
  content {a : Address} {v : Value} : s.content? a = some v → s.Has root v

theorem lt_count_of_scope? {i : ScopeId} {scope : Scope} (h : s.scope? i = some scope) :
    i < s.count .scope := (Array.getElem?_eq_some_iff.1 h).1

theorem lt_count_of_own? {i : ScopeId} {name : String} (h : s.own? i name = some v) :
    i < s.count .scope := by
  obtain ⟨scope, hscope, -⟩ := Option.bind_eq_some_iff.1 h
  exact lt_count_of_scope? hscope

theorem lt_count_of_content? {a : Address} (h : s.content? a = some v) : a < s.count .atom :=
  (Array.getElem?_eq_some_iff.1 h).1

/-- In a sound store nothing but places in use can be reached from places in use. -/
theorem Reach.lt (hs : s.Sound root) (hstart : ∀ {k i}, start k i → i < s.count k) {k : Kind}
    {i : Nat} (h : s.Reach root start k i) : i < s.count k := by
  induction h with
  | start h => exact hstart h
  | outer _ hscope houter ih => exact (hs.outer hscope houter).trans ih
  | binding _ hscope hentry hrefers _ => exact hs.binding hscope hentry hrefers
  | content _ hcontent hrefers _ => exact hs.content hcontent hrefers

theorem Reach.mono (hstart : ∀ {k i}, start k i → start' k i) {k : Kind} {i : Nat}
    (h : s.Reach root start k i) : s.Reach root start' k i := by
  induction h with
  | start h => exact .start (hstart h)
  | outer _ hscope houter ih => exact .outer ih hscope houter
  | binding _ hscope hentry hrefers ih => exact .binding ih hscope hentry hrefers
  | content _ hcontent hrefers ih => exact .content ih hcontent hrefers

/-- Another store holds the same in a region, and the region is in use there. -/
structure AgreesOn (region : Kind → Nat → Prop) (s t : Store) : Prop where
  same {k : Kind} {i : Nat} : region k i → s.SameAt t k i
  lt_count {k : Kind} {i : Nat} : region k i → i < t.count k

end Store

namespace World

variable {root root' : ScopeId} {W : World root root'} {v w p : Value} {k : Kind} {i : Nat}

theorem exists_of_forall₂_mem {α β : Type} {related : α → β → Prop} {as : List α} {bs : List β}
    (h : List.Forall₂ related as bs) {a : α} (ha : a ∈ as) : ∃ b ∈ bs, related a b := by
  induction h with
  | nil => cases ha
  | cons hab _ ih =>
    rcases List.mem_cons.1 ha with rfl | ha
    · exact ⟨_, List.mem_cons_self, hab⟩
    · obtain ⟨b, hb, hab⟩ := ih ha
      exact ⟨b, List.mem_cons_of_mem _ hb, hab⟩

namespace Matches

theorem part (h : W.Matches v w) (hp : p ∈ v.parts) : ∃ q ∈ w.parts, W.Matches p q := by
  have hfind {vs ws : List Value} (hvs : W.AllMatch vs ws) (hp : p ∈ vs) :
      ∃ q ∈ ws, W.Matches p q := exists_of_forall₂_mem hvs hp
  cases h with
  | list _ _ hlength hzip hinfo =>
    exact hfind (.cons hinfo (List.forall₂_iff_zip.2 ⟨hlength, hzip⟩)) hp
  | vec _ hlength hzip hinfo =>
    exact hfind (.cons hinfo (List.forall₂_iff_zip.2 ⟨hlength, hzip⟩)) hp
  | map _ _ hlength hkeys hvalues hinfo =>
    have hentries := List.forall₂_iff_zip.2 ⟨hlength, hkeys⟩
    have hentries' := List.forall₂_iff_zip.2 ⟨hlength, hvalues⟩
    refine hfind (.cons hinfo (List.rel_append ?_ ?_)) hp
    · exact List.forall₂_map_left_iff.2 (List.forall₂_map_right_iff.2 hentries)
    · exact List.forall₂_map_left_iff.2 (List.forall₂_map_right_iff.2 hentries')
  | pair _ hfirst hsecond => exact hfind (.cons hfirst (.cons hsecond .nil)) hp
  | closure _ _ _ hbody _ hinfo => exact hfind (.cons hinfo (.cons hbody .nil)) hp
  | builtin _ _ _ _ hinfo => exact hfind (.cons hinfo .nil) hp
  | _ => cases hp

theorem place (h : W.Matches v w) (hi : (k, i) ∈ v.places root) : ∃ j, W.pairs k i j := by
  cases h with
  | nan hid | list _ hid | vec hid | map _ hid | pair hid | atom hid =>
    obtain ⟨rfl, rfl⟩ := Prod.mk.inj (List.mem_singleton.1 hi)
    exact ⟨_, hid⟩
  | closure _ _ hid _ hscope _ =>
    rcases List.mem_cons.1 hi with hi | hi
    · obtain ⟨rfl, rfl⟩ := Prod.mk.inj hi
      exact ⟨_, hid⟩
    · obtain ⟨rfl, rfl⟩ := Prod.mk.inj (List.mem_singleton.1 hi)
      exact ⟨_, hscope⟩
  | builtin f _ hid hroot _ =>
    cases f with
    | eval =>
      rcases List.mem_cons.1 hi with hi | hi
      · obtain ⟨rfl, rfl⟩ := Prod.mk.inj hi
        exact ⟨_, hid⟩
      · obtain ⟨rfl, rfl⟩ := Prod.mk.inj (List.mem_singleton.1 hi)
        exact ⟨_, hroot rfl⟩
    | core | numeric =>
      obtain ⟨rfl, rfl⟩ := Prod.mk.inj (List.mem_singleton.1 hi)
      exact ⟨_, hid⟩
  | _ => cases hi

theorem refers (h : W.Matches v w) (hrefers : v.Refers root k i) : ∃ j, W.pairs k i j := by
  induction hrefers generalizing w with
  | here hi => exact h.place hi
  | part hp _ ih =>
    obtain ⟨q, -, hpq⟩ := h.part hp
    exact ih hpq

end Matches

/-- A value matches itself when all places that it refers to are paired with themselves. -/
theorem matches_self {W : World root root} (h : ∀ {k i}, v.Refers root k i → W.pairs k i i) :
    W.Matches v v := by
  induction v using Value.parts_induction with
  | h v ih =>
    have hplace : ∀ {k i}, (k, i) ∈ v.places root → W.pairs k i i := fun hi => h (.here hi)
    have hpart : ∀ p ∈ v.parts, W.Matches p p :=
      fun p hp => ih p hp fun hrefers => h (.part hp hrefers)
    have hall {vs : List Value} (hvs : ∀ p ∈ vs, p ∈ v.parts) : W.AllMatch vs vs :=
      List.forall₂_same.2 fun p hp => hpart p (hvs p hp)
    cases v with
    | nil => exact .nil
    | bool b => exact .bool b
    | int n => exact .int n
    | float x => exact .float x
    | nan id => exact .nan (hplace List.mem_cons_self)
    | str text => exact .str text
    | sym name => exact .sym name
    | kw name => exact .kw name
    | list id items marked info =>
      exact .ofList (hplace List.mem_cons_self) (hall fun _ => List.mem_cons_of_mem _) marked
        (hpart info List.mem_cons_self)
    | vec id items info =>
      exact .ofVec (hplace List.mem_cons_self) (hall fun _ => List.mem_cons_of_mem _)
        (hpart info List.mem_cons_self)
    | map id entries marked info =>
      refine .ofMap (hplace List.mem_cons_self) ?_ marked (hpart info List.mem_cons_self)
      refine List.forall₂_same.2 fun e he => ⟨hpart e.1 ?_, hpart e.2 ?_⟩
      · exact List.mem_cons_of_mem _ (List.mem_append_left _ (List.mem_map_of_mem he))
      · exact List.mem_cons_of_mem _ (List.mem_append_right _ (List.mem_map_of_mem he))
    | pair id first second =>
      exact .pair (hplace List.mem_cons_self) (hpart first List.mem_cons_self)
        (hpart second (List.mem_cons_of_mem _ List.mem_cons_self))
    | atom a => exact .atom (hplace List.mem_cons_self)
    | closure id params body scope isMacro info =>
      exact .closure params isMacro (hplace List.mem_cons_self)
        (hpart body (List.mem_cons_of_mem _ List.mem_cons_self))
        (hplace (List.mem_cons_of_mem _ List.mem_cons_self)) (hpart info List.mem_cons_self)
    | builtin f wrapped id info =>
      refine .builtin f wrapped (hplace ?_) ?_ (hpart info List.mem_cons_self)
      · cases f <;> exact List.mem_cons_self
      · rintro rfl
        exact hplace (List.mem_cons_of_mem _ List.mem_cons_self)

/-- Nothing but paired places can be reached from paired places. -/
theorem Agree.paired_of_reach (hW : W.Agree) {start : Kind → Nat → Prop}
    (hstart : ∀ {k i}, start k i → ∃ j, W.pairs k i j)
    (h : W.left.Reach root start k i) : ∃ j, W.pairs k i j := by
  induction h with
  | start h => exact hstart h
  | outer _ hscope houter ih =>
    obtain ⟨j, hij⟩ := ih
    obtain ⟨a, b, ha, -, hab⟩ := hW.place hij
    obtain rfl := Option.some.inj (ha.symm.trans hscope)
    have houter' := hab.outer
    rw [houter] at houter'
    generalize b.outer = o' at houter'
    cases houter' with
    | some ho => exact ⟨_, ho.1⟩
  | binding _ hscope hentry hrefers ih =>
    obtain ⟨j, hij⟩ := ih
    obtain ⟨a, b, ha, -, hab⟩ := hW.place hij
    obtain rfl := Option.some.inj (ha.symm.trans hscope)
    obtain ⟨_, -, hmatch⟩ := exists_of_forall₂_mem hab.bindings hentry
    exact hmatch.2.refers hrefers
  | content _ hcontent hrefers ih =>
    obtain ⟨j, hij⟩ := ih
    obtain ⟨v, w, hv, -, hvw⟩ := hW.place hij
    obtain rfl := Option.some.inj (hv.symm.trans hcontent)
    exact hvw.refers hrefers

theorem Agree.sound_left (hW : W.Agree)
    (hall : ∀ {k i}, i < W.left.count k → ∃ j, W.pairs k i j) : W.left.Sound root := by
  have hhas {v w : Value} (h : W.Matches v w) : W.left.Has root v := by
    intro k i hrefers
    obtain ⟨j, hij⟩ := h.refers hrefers
    exact hW.left_lt hij
  constructor
  · exact hW.left_lt hW.nan
  · intro i o scope hscope houter
    obtain ⟨j, hij⟩ := hall (Store.lt_count_of_scope? hscope)
    obtain ⟨a, b, ha, -, hab⟩ := hW.place hij
    obtain rfl := Option.some.inj (ha.symm.trans hscope)
    have houter' := hab.outer
    rw [houter] at houter'
    generalize b.outer = o' at houter'
    cases houter' with
    | some ho => exact ho.2.1
  · intro i scope entry hscope hentry
    obtain ⟨j, hij⟩ := hall (Store.lt_count_of_scope? hscope)
    obtain ⟨a, b, ha, -, hab⟩ := hW.place hij
    obtain rfl := Option.some.inj (ha.symm.trans hscope)
    obtain ⟨_, -, hmatch⟩ := exists_of_forall₂_mem hab.bindings hentry
    exact hhas hmatch.2
  · intro a v hcontent
    obtain ⟨j, hij⟩ := hall (Store.lt_count_of_content? hcontent)
    obtain ⟨v', w, hv, -, hvw⟩ := hW.place hij
    obtain rfl := Option.some.inj (hv.symm.trans hcontent)
    exact hhas hvw

/-- The places of a region, each paired with itself, in two stores. -/
def within (root : ScopeId) (region : Kind → Nat → Prop) (s t : Store) : World root root :=
  ⟨fun k i j => i = j ∧ region k i, s, t⟩

/-- A sound store agrees with every store that holds the same in what can be reached. -/
theorem agree_within {s t : Store} {start : Kind → Nat → Prop} (hs : s.Sound root)
    (hstart : ∀ {k i}, start k i → i < s.count k) (hliteral : start .object Value.literalNan)
    (ht : s.AgreesOn (s.Reach root start) t) :
    (within root (s.Reach root start) s t).Agree := by
  constructor
  · rintro k i i' j j' ⟨rfl, -⟩ ⟨rfl, -⟩
    exact Iff.rfl
  · exact ⟨rfl, .start hliteral⟩
  · rintro k i _ ⟨rfl, hi⟩
    have hlt := hi.lt hs hstart
    cases k with
    | scope =>
      have hscope : s.scope? i = some s.scopes[i] := Array.getElem?_eq_getElem hlt
      refine ⟨_, _, hscope, Eq.trans (ht.same hi) hscope, rfl, ?_, ?_⟩
      · cases houter : (s.scopes[i]).outer with
        | none => exact .none
        | some o =>
          have hlt := hs.outer hscope houter
          exact .some ⟨⟨rfl, hi.outer hscope houter⟩, hlt, hlt⟩
      · refine List.forall₂_same.2 fun entry hentry => ⟨rfl, matches_self fun hrefers => ?_⟩
        exact ⟨rfl, hi.binding hscope hentry hrefers⟩
    | atom =>
      have hcontent : s.content? i = some s.contents[i] := Array.getElem?_eq_getElem hlt
      refine ⟨_, _, hcontent, Eq.trans (ht.same hi) hcontent, matches_self fun hrefers => ?_⟩
      exact ⟨rfl, hi.content hcontent hrefers⟩
    | object => exact ⟨hlt, ht.lt_count hi⟩

end World

end SmallLisp
