import Mathlib.Tactic
import SmallLisp.Numeric.Arguments
import SmallLisp.Proofs.World.Basic

/-!
# What does not tell matching values apart

No function on values can tell which places they refer to: numbers, names, types and truth values of
matching values are the same, and two values are equal, or the same key of a map, exactly when the
values that they match are.
-/

namespace SmallLisp.World

variable {root root' : ScopeId} {W : World root root'} {v v' w w' : Value}

namespace Matches

theorem number?_eq (h : W.Matches v w) : v.number? = w.number? := by
  cases h <;> rfl

theorem quantity?_eq (h : W.Matches v w) : v.quantity? = w.quantity? := by
  cases h <;> rfl

theorem typeName_eq (h : W.Matches v w) : v.typeName = w.typeName := by
  cases h <;> rfl

theorem category_eq (h : W.Matches v w) : v.category = w.category := by
  cases h <;> rfl

theorem isTruthy_eq (h : W.Matches v w) : v.isTruthy = w.isTruthy := by
  cases h <;> rfl

theorem symbol?_eq (h : W.Matches v w) : v.symbol? = w.symbol? := by
  cases h <;> rfl

theorem info (h : W.Matches v w) : W.Matches v.info w.info := by
  cases h with
  | list _ _ _ _ hinfo | vec _ _ _ hinfo | map _ _ _ _ _ hinfo | closure _ _ _ _ _ hinfo
  | builtin _ _ _ _ hinfo => exact hinfo
  | _ => exact .nil

theorem sequence (h : W.Matches v w) : Option.Rel W.AllMatch v.sequence? w.sequence? := by
  cases h with
  | list _ _ hlength hitems _ => exact .some (List.forall₂_iff_zip.2 ⟨hlength, hitems⟩)
  | vec _ hlength hitems _ => exact .some (List.forall₂_iff_zip.2 ⟨hlength, hitems⟩)
  | _ => exact .none

end Matches

inductive KeysMatch (W : World root root') : Key → Key → Prop
  | nil : KeysMatch W .nil .nil
  | int (n : ℤ) : KeysMatch W (.int n) (.int n)
  | float (x : Flonum) : KeysMatch W (.float x) (.float x)
  | nan {i j : Identity} : W.pairs .object i j → KeysMatch W (.nan i) (.nan j)
  | str (text : String) : KeysMatch W (.str text) (.str text)
  | sym (name : String) : KeysMatch W (.sym name) (.sym name)
  | kw (name : String) : KeysMatch W (.kw name) (.kw name)
  | pair {first first' second second' : Key} :
      KeysMatch W first first' → KeysMatch W second second' →
      KeysMatch W (.pair first second) (.pair first' second')
  | cell {a b : Address} : W.pairs .atom a b → KeysMatch W (.cell a) (.cell b)
  | object {i j : Identity} : W.pairs .object i j → KeysMatch W (.object i) (.object j)
  | builtin (name : String) : KeysMatch W (.builtin name) (.builtin name)

theorem KeysMatch.eq_iff (hW : W.Agree) {k k' l l' : Key} (hk : W.KeysMatch k k')
    (hl : W.KeysMatch l l') : k = l ↔ k' = l' := by
  induction hk generalizing l l' with
  | nan hid =>
    cases hl with
    | nan hid' => simpa using hW.unique hid hid'
    | _ => simp
  | cell ha =>
    cases hl with
    | cell ha' => simpa using hW.unique ha ha'
    | _ => simp
  | object hid =>
    cases hl with
    | object hid' => simpa using hW.unique hid hid'
    | _ => simp
  | pair _ _ ihfirst ihsecond =>
    cases hl with
    | pair hfirst hsecond => simp [ihfirst hfirst, ihsecond hsecond]
    | _ => simp
  | _ => cases hl <;> simp

namespace Matches

theorem key (h : W.Matches v w) : Option.Rel W.KeysMatch v.key? w.key? := by
  induction h with
  | nil => exact .some .nil
  | bool b => exact .some (.int _)
  | int n => exact .some (.int n)
  | float x =>
    unfold Value.key? Key.ofFlonum
    cases x.integer? with
    | none => exact .some (.float x)
    | some n => exact .some (.int n)
  | nan hid => exact .some (.nan hid)
  | str text => exact .some (.str text)
  | sym name => exact .some (.sym name)
  | kw name => exact .some (.kw name)
  | @pair _ _ first first' second second' _ _ _ ihfirst ihsecond =>
    unfold Value.key?
    revert ihfirst ihsecond
    generalize first.key? = k, first'.key? = k', second.key? = l, second'.key? = l'
    rintro (hk | _) (hl | _)
    · exact .some (.pair hk hl)
    all_goals exact .none
  | atom ha => exact .some (.cell ha)
  | closure _ _ hid => exact .some (.object hid)
  | builtin f wrapped hid =>
    cases wrapped with
    | true => exact .some (.object hid)
    | false => exact .some (.builtin f.name)
  | list | vec | map => exact .none

theorem isNone_key?_eq (h : W.Matches v w) : v.key?.isNone = w.key?.isNone := by
  have hkey := h.key
  revert hkey
  generalize v.key? = k, w.key? = k'
  rintro (_ | _) <;> rfl

theorem key?_eq_iff (hW : W.Agree) (h : W.Matches v w) (h' : W.Matches v' w') :
    v.key? = v'.key? ↔ w.key? = w'.key? := by
  have hkey := h.key
  have hkey' := h'.key
  revert hkey hkey'
  generalize v.key? = k, w.key? = l, v'.key? = k', w'.key? = l'
  rintro (hkl | _) (hkl' | _)
  · simpa using hkl.eq_iff hW hkl'
  all_goals simp

/-- The language cannot tell which places values refer to. -/
theorem equal_eq (hW : W.Agree) (h : W.Matches v w) (h' : W.Matches v' w') :
    v.equal v' = w.equal w' := by
  have hobject {k : Kind} {i j i' j' : Nat} (hij : W.pairs k i j) (hij' : W.pairs k i' j') :
      (i == i') = (j == j') := by
    rw [Bool.eq_iff_iff, beq_iff_eq, beq_iff_eq]
    exact hW.unique hij hij'
  cases h with
  | nan hid | list _ hid | vec hid | map _ hid | pair hid | atom hid | closure _ _ hid =>
    cases h' <;> first | rfl | exact hobject hid ‹_›
  | builtin f wrapped hid =>
    cases h' with
    | builtin f' wrapped' hid' => simp only [Value.equal, hobject hid hid']
    | _ => rfl
  | _ => cases h' <;> rfl

end Matches

theorem EntriesMatch.insert (hW : W.Agree) {entries entries' : List (Value × Value)}
    (h : W.EntriesMatch entries entries') {k l : Value} (hk : W.Matches k l)
    (hv : W.Matches v w) :
    W.EntriesMatch (Key.insert Value.key? entries k v) (Key.insert Value.key? entries' l w) := by
  induction h with
  | nil => exact .cons ⟨hk, hv⟩ .nil
  | @cons e f _ _ he hrest ih =>
    unfold Key.insert
    have hkey := he.1.key?_eq_iff hW hk
    by_cases heq : e.1.key? = k.key?
    · rw [if_pos heq, if_pos (hkey.1 heq)]
      exact .cons ⟨he.1, hv⟩ hrest
    · rw [if_neg heq, if_neg (mt hkey.2 heq)]
      exact .cons he ih

theorem EntriesMatch.collapse (hW : W.Agree) {pairs pairs' : List (Value × Value)}
    (h : W.EntriesMatch pairs pairs') :
    W.EntriesMatch (Key.collapse Value.key? pairs) (Key.collapse Value.key? pairs') := by
  suffices hfold : ∀ {entries entries'}, W.EntriesMatch entries entries' → W.EntriesMatch
      (pairs.foldl (fun es p => Key.insert Value.key? es p.1 p.2) entries)
      (pairs'.foldl (fun es p => Key.insert Value.key? es p.1 p.2) entries') from hfold .nil
  induction h with
  | nil => exact fun hentries => hentries
  | cons he _ ih => exact fun hentries => ih (hentries.insert hW he.1 he.2)

end SmallLisp.World
