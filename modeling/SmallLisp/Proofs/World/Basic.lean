import Mathlib.Data.List.Forall2
import Mathlib.Tactic
import SmallLisp.Store

/-!
# Worlds

A world is a pair of stores with a pairing of some of their places: scopes, atoms and the identities
of objects. Two values match when they differ in paired places only. The two stores agree when the
pairing is one to one and paired places hold what matches, so that whatever can be reached from a
paired place is paired too. Places that are paired with none may hold anything.
-/

namespace SmallLisp

/-- What has a place of its own in a store. Objects are the values that carry an identity. -/
inductive Kind where
  | scope
  | atom
  | object
  deriving DecidableEq

namespace Store

/-- How many places of a kind are in use; the next one is behind them. -/
def count (s : Store) : Kind → Nat
  | .scope => s.scopes.size
  | .atom => s.contents.size
  | .object => s.nextIdentity

/-- A place holds the same in two stores. Of objects a store keeps nothing but the identity. -/
def SameAt (s s' : Store) : Kind → Nat → Prop
  | .scope, id => s'.scope? id = s.scope? id
  | .atom, a => s'.content? a = s.content? a
  | .object, _ => True

theorem SameAt.refl (s : Store) : (k : Kind) → (i : Nat) → s.SameAt s k i
  | .scope, _ | .atom, _ => rfl
  | .object, _ => trivial

theorem SameAt.trans {s s' s'' : Store} : {k : Kind} → {i : Nat} → s.SameAt s' k i →
    s'.SameAt s'' k i → s.SameAt s'' k i
  | .scope, _, h, h' => Eq.trans h' h
  | .atom, _, h, h' => Eq.trans h' h
  | .object, _, _, _ => trivial

/-- What can be told of a change without naming places: how many places of each kind are made, which
text is put out and which records are offered to the log. -/
structure Effect where
  made : Kind → Nat := 0
  text : String := ""
  records : List LogRecord := []

def Effect.andThen (e e' : Effect) : Effect :=
  ⟨e.made + e'.made, e.text ++ e'.text, e.records ++ e'.records⟩

theorem Effect.made_andThen (e e' : Effect) (k : Kind) :
    (e.andThen e').made k = e.made k + e'.made k := rfl

/-- A store comes after another one: no place is lost, the places that may not be written hold what
they held, and the rest is the effect. -/
structure Change (writable : Kind → Nat → Prop) (e : Effect) (s s' : Store) : Prop where
  count (k : Kind) : s'.count k = s.count k + e.made k
  same {k : Kind} {i : Nat} : i < s.count k → ¬ writable k i → s.SameAt s' k i
  output : s'.output = s.output ++ e.text
  log : s'.log.toList = s.log.toList ++ e.records.filter (s.logLevel ≤ ·.level)
  logLevel : s'.logLevel = s.logLevel

namespace Change

variable {writable writable' : Kind → Nat → Prop} {e e' : Effect} {s s' s'' : Store}

theorem refl (writable : Kind → Nat → Prop) (s : Store) : Change writable {} s s where
  count _ := rfl
  same _ _ := .refl s _ _
  output := String.append_empty.symm
  log := by simp
  logLevel := rfl

theorem trans (h : Change writable e s s') (h' : Change writable' e' s' s'')
    (hwritable : ∀ k i, i < s.count k → writable' k i → writable k i) :
    Change writable (e.andThen e') s s'' where
  count k := by rw [h'.count, h.count, Nat.add_assoc, Effect.made_andThen]
  same hi hnot := (h.same hi hnot).trans <|
    h'.same (hi.trans_le (h.count _ ▸ Nat.le_add_right _ _))
      fun hi' => hnot (hwritable _ _ hi hi')
  output := by rw [h'.output, h.output, String.append_assoc, Effect.andThen]
  log := by rw [h'.log, h.log, h.logLevel, Effect.andThen, List.filter_append, List.append_assoc]
  logLevel := h'.logLevel.trans h.logLevel

theorem count_le (h : Change writable e s s') (k : Kind) : s.count k ≤ s'.count k :=
  h.count k ▸ Nat.le_add_right _ _

end Change

end Store

/-- Two stores with a pairing of their places. The first root is the scope in which the builtin
`eval` evaluates on the left, the second root the one on the right. -/
structure World (root root' : ScopeId) where
  pairs : Kind → Nat → Nat → Prop
  left : Store
  right : Store

namespace World

variable {root root' : ScopeId} {W W' W'' : World root root'}

/-- Two values differ in paired places only. -/
inductive Matches (W : World root root') : Value → Value → Prop
  | nil : Matches W .nil .nil
  | bool (b : Bool) : Matches W (.bool b) (.bool b)
  | int (n : ℤ) : Matches W (.int n) (.int n)
  | float (x : Flonum) : Matches W (.float x) (.float x)
  | nan {i j : Identity} : W.pairs .object i j → Matches W (.nan i) (.nan j)
  | str (text : String) : Matches W (.str text) (.str text)
  | sym (name : String) : Matches W (.sym name) (.sym name)
  | kw (name : String) : Matches W (.kw name) (.kw name)
  | list {i j : Identity} {items items' : List Value} {info info' : Value} (marked : Bool) :
      W.pairs .object i j → items.length = items'.length →
      (∀ {v w}, (v, w) ∈ items.zip items' → Matches W v w) → Matches W info info' →
      Matches W (.list i items marked info) (.list j items' marked info')
  | vec {i j : Identity} {items items' : List Value} {info info' : Value} :
      W.pairs .object i j → items.length = items'.length →
      (∀ {v w}, (v, w) ∈ items.zip items' → Matches W v w) → Matches W info info' →
      Matches W (.vec i items info) (.vec j items' info')
  | map {i j : Identity} {entries entries' : List (Value × Value)} {info info' : Value}
      (marked : Bool) :
      W.pairs .object i j → entries.length = entries'.length →
      (∀ {e f}, (e, f) ∈ entries.zip entries' → Matches W e.1 f.1) →
      (∀ {e f}, (e, f) ∈ entries.zip entries' → Matches W e.2 f.2) → Matches W info info' →
      Matches W (.map i entries marked info) (.map j entries' marked info')
  | pair {i j : Identity} {first first' second second' : Value} :
      W.pairs .object i j → Matches W first first' → Matches W second second' →
      Matches W (.pair i first second) (.pair j first' second')
  | atom {a b : Address} : W.pairs .atom a b → Matches W (.atom a) (.atom b)
  | closure {i j : Identity} {body body' info info' : Value} {scope scope' : ScopeId}
      (params : List String) (isMacro : Bool) :
      W.pairs .object i j → Matches W body body' → W.pairs .scope scope scope' →
      Matches W info info' →
      Matches W (.closure i params body scope isMacro info)
        (.closure j params body' scope' isMacro info')
  | builtin {i j : Identity} {info info' : Value} (f : Builtin) (wrapped : Bool) :
      W.pairs .object i j → (f = .eval → W.pairs .scope root root') → Matches W info info' →
      Matches W (.builtin f wrapped i info) (.builtin f wrapped j info')

def AllMatch (W : World root root') : List Value → List Value → Prop := List.Forall₂ W.Matches

def EntryMatches (W : World root root') (e f : Value × Value) : Prop :=
  W.Matches e.1 f.1 ∧ W.Matches e.2 f.2

def EntriesMatch (W : World root root') : List (Value × Value) → List (Value × Value) → Prop :=
  List.Forall₂ W.EntryMatches

theorem Matches.ofList {i j : Identity} {items items' : List Value} {info info' : Value}
    (hid : W.pairs .object i j) (hitems : W.AllMatch items items') (marked : Bool)
    (hinfo : W.Matches info info') :
    W.Matches (.list i items marked info) (.list j items' marked info') := by
  obtain ⟨hlength, hzip⟩ := List.forall₂_iff_zip.1 hitems
  exact .list marked hid hlength hzip hinfo

theorem Matches.ofVec {i j : Identity} {items items' : List Value} {info info' : Value}
    (hid : W.pairs .object i j) (hitems : W.AllMatch items items') (hinfo : W.Matches info info') :
    W.Matches (.vec i items info) (.vec j items' info') := by
  obtain ⟨hlength, hzip⟩ := List.forall₂_iff_zip.1 hitems
  exact .vec hid hlength hzip hinfo

theorem Matches.ofMap {i j : Identity} {entries entries' : List (Value × Value)}
    {info info' : Value} (hid : W.pairs .object i j) (hentries : W.EntriesMatch entries entries')
    (marked : Bool) (hinfo : W.Matches info info') :
    W.Matches (.map i entries marked info) (.map j entries' marked info') := by
  obtain ⟨hlength, hzip⟩ := List.forall₂_iff_zip.1 hentries
  exact .map marked hid hlength (fun h => (hzip h).1) (fun h => (hzip h).2) hinfo

theorem Matches.mono {v w : Value} (h : W.Matches v w)
    (hpairs : ∀ {k i j}, W.pairs k i j → W'.pairs k i j) : W'.Matches v w := by
  induction h with
  | nil => exact .nil
  | bool b => exact .bool b
  | int n => exact .int n
  | float x => exact .float x
  | nan hid => exact .nan (hpairs hid)
  | str text => exact .str text
  | sym name => exact .sym name
  | kw name => exact .kw name
  | list marked hid hlength _ _ ihitems ihinfo =>
    exact .list marked (hpairs hid) hlength ihitems ihinfo
  | vec hid hlength _ _ ihitems ihinfo => exact .vec (hpairs hid) hlength ihitems ihinfo
  | map marked hid hlength _ _ _ ihkeys ihvalues ihinfo =>
    exact .map marked (hpairs hid) hlength ihkeys ihvalues ihinfo
  | pair hid _ _ ihfirst ihsecond => exact .pair (hpairs hid) ihfirst ihsecond
  | atom ha => exact .atom (hpairs ha)
  | closure params isMacro hid _ hscope _ ihbody ihinfo =>
    exact .closure params isMacro (hpairs hid) ihbody (hpairs hscope) ihinfo
  | builtin f wrapped hid hroot _ ihinfo =>
    exact .builtin f wrapped (hpairs hid) (fun hf => hpairs (hroot hf)) ihinfo

/-- Two scopes match: their names, the scopes around them, which were there before them, and what
they bind. -/
structure ScopesMatch (W : World root root') (i j : ScopeId) (a b : Scope) : Prop where
  name : a.name = b.name
  outer : Option.Rel (fun o o' => W.pairs .scope o o' ∧ o < i ∧ o' < j) a.outer b.outer
  bindings : List.Forall₂ (fun x y => x.1 = y.1 ∧ W.Matches x.2 y.2) a.bindings b.bindings

/-- Two places are in use and hold what matches. -/
def Corresponds (W : World root root') : Kind → Nat → Nat → Prop
  | .scope, i, j => ∃ a b, W.left.scope? i = some a ∧ W.right.scope? j = some b ∧
      W.ScopesMatch i j a b
  | .atom, i, j => ∃ v w, W.left.content? i = some v ∧ W.right.content? j = some w ∧ W.Matches v w
  | .object, i, j => i < W.left.nextIdentity ∧ j < W.right.nextIdentity

/-- The pairing is one to one, all pairs hold what matches, and the literal NaN is the same object
on both sides. -/
structure Agree (W : World root root') : Prop where
  unique {k : Kind} {i i' j j' : Nat} : W.pairs k i j → W.pairs k i' j' → (i = i' ↔ j = j')
  nan : W.pairs .object Value.literalNan Value.literalNan
  place {k : Kind} {i j : Nat} : W.pairs k i j → W.Corresponds k i j

theorem Corresponds.lt : {k : Kind} → {i j : Nat} → W.Corresponds k i j →
    i < W.left.count k ∧ j < W.right.count k
  | .scope, _, _, ⟨_, _, ha, hb, _⟩ =>
    ⟨(Array.getElem?_eq_some_iff.1 ha).1, (Array.getElem?_eq_some_iff.1 hb).1⟩
  | .atom, _, _, ⟨_, _, hv, hw, _⟩ =>
    ⟨(Array.getElem?_eq_some_iff.1 hv).1, (Array.getElem?_eq_some_iff.1 hw).1⟩
  | .object, _, _, h => h

theorem Agree.left_lt (h : W.Agree) {k : Kind} {i j : Nat} (hij : W.pairs k i j) :
    i < W.left.count k := (h.place hij).lt.1

theorem Agree.right_lt (h : W.Agree) {k : Kind} {i j : Nat} (hij : W.pairs k i j) :
    j < W.right.count k := (h.place hij).lt.2

theorem ScopesMatch.mono {i j : ScopeId} {a b : Scope} (h : W.ScopesMatch i j a b)
    (hpairs : ∀ {k i j}, W.pairs k i j → W'.pairs k i j) : W'.ScopesMatch i j a b := by
  obtain ⟨hname, houter, hbindings⟩ := h
  obtain ⟨name, outer, bindings⟩ := a
  obtain ⟨name', outer', bindings'⟩ := b
  refine ⟨hname, ?_, hbindings.imp fun _ _ hxy => ⟨hxy.1, hxy.2.mono hpairs⟩⟩
  cases houter with
  | some ho => exact .some ⟨hpairs ho.1, ho.2⟩
  | none => exact .none

/-- A world comes after another one, with the same effect on either side: only paired places are
written, and the places that are made are paired in the order in which they are made. -/
structure LaterBy (W : World root root') (e : Store.Effect) (W' : World root root') : Prop where
  left : Store.Change (fun k i => ∃ j, W.pairs k i j) e W.left W'.left
  right : Store.Change (fun k j => ∃ i, W.pairs k i j) e W.right W'.right
  pairs_iff {k : Kind} {i j : Nat} : W'.pairs k i j ↔
    W.pairs k i j ∨ ∃ n < e.made k, i = W.left.count k + n ∧ j = W.right.count k + n

def Later (W W' : World root root') : Prop := ∃ e, W.LaterBy e W'

theorem LaterBy.refl (W : World root root') : W.LaterBy {} W where
  left := .refl _ _
  right := .refl _ _
  pairs_iff := by simp

theorem LaterBy.trans {e e' : Store.Effect} (h : W.LaterBy e W') (h' : W'.LaterBy e' W'') :
    W.LaterBy (e.andThen e') W'' := by
  constructor
  · refine h.left.trans h'.left ?_
    rintro k i hi ⟨j, hij⟩
    refine ⟨j, (h.pairs_iff.1 hij).resolve_right ?_⟩
    rintro ⟨n, -, rfl, -⟩
    exact Nat.not_lt.2 (Nat.le_add_right _ _) hi
  · refine h.right.trans h'.right ?_
    rintro k j hj ⟨i, hij⟩
    refine ⟨i, (h.pairs_iff.1 hij).resolve_right ?_⟩
    rintro ⟨n, -, -, rfl⟩
    exact Nat.not_lt.2 (Nat.le_add_right _ _) hj
  · -- the places of the second effect are counted on from those of the first one
    intro k i j
    rw [h'.pairs_iff, h.pairs_iff, h.left.count, h.right.count, Store.Effect.made_andThen]
    constructor
    · rintro ((hij | ⟨n, hn, rfl, rfl⟩) | ⟨n, hn, rfl, rfl⟩)
      · exact .inl hij
      · exact .inr ⟨n, by omega, rfl, rfl⟩
      · exact .inr ⟨e.made k + n, by omega, by omega, by omega⟩
    · rintro (hij | ⟨n, hn, rfl, rfl⟩)
      · exact .inl (.inl hij)
      · rcases lt_or_ge n (e.made k) with hlt | hge
        · exact .inl (.inr ⟨n, hlt, rfl, rfl⟩)
        · exact .inr ⟨n - e.made k, by omega, by omega, by omega⟩

theorem Later.refl (W : World root root') : W.Later W := ⟨_, .refl W⟩

theorem Later.trans : W.Later W' → W'.Later W'' → W.Later W''
  | ⟨_, h⟩, ⟨_, h'⟩ => ⟨_, h.trans h'⟩

theorem Later.mono (h : W.Later W') {k : Kind} {i j : Nat} (hij : W.pairs k i j) :
    W'.pairs k i j := by
  obtain ⟨e, he⟩ := h
  exact he.pairs_iff.2 (.inl hij)

theorem Matches.later {v w : Value} (h : W.Matches v w) (hlater : W.Later W') : W'.Matches v w :=
  h.mono hlater.mono

theorem AllMatch.later {vs ws : List Value} (h : W.AllMatch vs ws) (hlater : W.Later W') :
    W'.AllMatch vs ws := h.imp fun _ _ hvw => hvw.later hlater

theorem EntriesMatch.later {entries entries' : List (Value × Value)}
    (h : W.EntriesMatch entries entries') (hlater : W.Later W') :
    W'.EntriesMatch entries entries' := h.imp fun _ _ he => ⟨he.1.later hlater, he.2.later hlater⟩

/-- Stores go on agreeing when every pair is an old one that holds what it held, or one of which it
is known that it corresponds. -/
theorem Agree.step (h : W.Agree) (hlater : W.Later W')
    (hplace : ∀ {k i j}, W'.pairs k i j → W'.Corresponds k i j ∨
      W.pairs k i j ∧ W.left.SameAt W'.left k i ∧ W.right.SameAt W'.right k j) : W'.Agree := by
  obtain ⟨e, he⟩ := hlater
  constructor
  · intro k i i' j j' hij hij'
    rcases he.pairs_iff.1 hij with hold | ⟨n, hn, rfl, rfl⟩ <;>
      rcases he.pairs_iff.1 hij' with hold' | ⟨n', hn', rfl, rfl⟩
    · exact h.unique hold hold'
    · have hi := h.left_lt hold
      have hj := h.right_lt hold
      omega
    · have hi := h.left_lt hold'
      have hj := h.right_lt hold'
      omega
    · omega
  · exact he.pairs_iff.2 (.inl h.nan)
  · intro k i j hij
    rcases hplace hij with hplace | ⟨hpair, hsame, hsame'⟩
    · exact hplace
    · have hcorresponds := h.place hpair
      cases k with
      | scope =>
        obtain ⟨a, b, ha, hb, hab⟩ := hcorresponds
        exact ⟨a, b, Eq.trans hsame ha, Eq.trans hsame' hb, hab.mono (Later.mono ⟨e, he⟩)⟩
      | atom =>
        obtain ⟨v, w, hv, hw, hvw⟩ := hcorresponds
        exact ⟨v, w, Eq.trans hsame hv, Eq.trans hsame' hw, hvw.later ⟨e, he⟩⟩
      | object =>
        exact ⟨hcorresponds.1.trans_le (he.left.count_le .object),
          hcorresponds.2.trans_le (he.right.count_le .object)⟩

def withStores (W : World root root') (s t : Store) : World root root' := ⟨W.pairs, s, t⟩

/-- One more pair, of the next places of a kind, in other stores. -/
def add (W : World root root') (k : Kind) (s t : Store) : World root root' where
  pairs k' i j := W.pairs k' i j ∨ k' = k ∧ i = W.left.count k ∧ j = W.right.count k
  left := s
  right := t

section

variable {s t : Store} {e : Store.Effect}

theorem later_withStores (he : e.made = 0)
    (hleft : Store.Change (fun k i => ∃ j, W.pairs k i j) e W.left s)
    (hright : Store.Change (fun k j => ∃ i, W.pairs k i j) e W.right t) :
    W.Later (W.withStores s t) :=
  ⟨e, hleft, hright, by simp [he, withStores]⟩

theorem later_add {k : Kind}
    (hleft : Store.Change (fun k i => ∃ j, W.pairs k i j) { made := Pi.single k 1 } W.left s)
    (hright : Store.Change (fun k j => ∃ i, W.pairs k i j) { made := Pi.single k 1 } W.right t) :
    W.Later (W.add k s t) := by
  refine ⟨_, hleft, hright, ?_⟩
  intro k' i j
  by_cases hk : k' = k
  · subst hk
    simp [add]
  · simp [add, hk]

/-- Stores go on agreeing when one pair of places is written on both sides with what matches. -/
theorem Agree.write (h : W.Agree) (hlater : W.Later (W.withStores s t)) {k : Kind} {i j : Nat}
    (hij : W.pairs k i j) (hcorresponds : (W.withStores s t).Corresponds k i j)
    (hleft : ∀ {k' i'}, k' ≠ k ∨ i' ≠ i → W.left.SameAt s k' i')
    (hright : ∀ {k' j'}, k' ≠ k ∨ j' ≠ j → W.right.SameAt t k' j') :
    (W.withStores s t).Agree := by
  refine h.step hlater ?_
  intro k' i' j' hij'
  by_cases hk : k' = k
  · subst hk
    by_cases hi : i' = i
    · obtain rfl := (h.unique hij' hij).1 hi
      exact .inl (hi ▸ hcorresponds)
    · have hj := mt (h.unique hij' hij).2 hi
      exact .inr ⟨hij', hleft (.inr hi), hright (.inr hj)⟩
  · exact .inr ⟨hij', hleft (.inl hk), hright (.inl hk)⟩

theorem Agree.keep (h : W.Agree)
    (hleft : ∀ {k i j}, W.pairs k i j → W.left.SameAt s k i)
    (hright : ∀ {k i j}, W.pairs k i j → W.right.SameAt t k j)
    (hidentity : W.left.nextIdentity ≤ s.nextIdentity)
    (hidentity' : W.right.nextIdentity ≤ t.nextIdentity) : (W.withStores s t).Agree where
  unique := h.unique
  nan := h.nan
  place {k i j} hij := by
    have hcorresponds := h.place hij
    have hsame := hleft hij
    have hsame' := hright hij
    have hmono : ∀ {k i j}, W.pairs k i j → (W.withStores s t).pairs k i j := id
    cases k with
    | scope =>
      obtain ⟨a, b, ha, hb, hab⟩ := hcorresponds
      exact ⟨a, b, Eq.trans hsame ha, Eq.trans hsame' hb, hab.mono hmono⟩
    | atom =>
      obtain ⟨v, w, hv, hw, hvw⟩ := hcorresponds
      exact ⟨v, w, Eq.trans hsame hv, Eq.trans hsame' hw, hvw.mono hmono⟩
    | object =>
      exact ⟨hcorresponds.1.trans_le hidentity, hcorresponds.2.trans_le hidentity'⟩

/-- Stores go on agreeing when a new place on one side is paired with a new place on the other. -/
theorem Agree.add {k : Kind} (h : W.Agree) (hlater : W.Later (W.add k s t))
    (hcorresponds : (W.add k s t).Corresponds k (W.left.count k) (W.right.count k))
    (hleft : ∀ {k' i}, i < W.left.count k' → W.left.SameAt s k' i)
    (hright : ∀ {k' j}, j < W.right.count k' → W.right.SameAt t k' j) : (W.add k s t).Agree := by
  refine h.step hlater ?_
  rintro k' i j (hij | ⟨rfl, rfl, rfl⟩)
  · exact .inr ⟨hij, hleft (h.left_lt hij), hright (h.right_lt hij)⟩
  · exact .inl hcorresponds

end

end World

end SmallLisp
