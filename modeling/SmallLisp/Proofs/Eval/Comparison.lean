import Mathlib.Tactic
import SmallLisp.Proofs.Eval.Within
import SmallLisp.Proofs.Number.Order

/-!
# Equality and order

Two values are equal when they have the same mark: what is compared by content has its content as
its mark, and every other value its kind and identity. The comparators order numbers by their exact
values. Both are relations on values alone, the same in every store.
-/

namespace SmallLisp

open Eval

/-- What equality sees of a value. -/
inductive Mark where
  | nil
  | bool (b : Bool)
  | number (x : ExactValue)
  | nan (id : Identity)
  | str (s : String)
  | sym (name : String)
  | kw (name : String)
  | list (id : Identity)
  | vec (id : Identity)
  | map (id : Identity)
  | pair (id : Identity)
  | atom (address : Address)
  | closure (id : Identity)
  | wrapped (id : Identity)
  | builtin (f : Builtin)

namespace Value

def mark : Value → Mark
  | nil => .nil
  | bool b => .bool b
  | int n => .number (.finite n)
  | float x => .number x.exact
  | nan id => .nan id
  | str s => .str s
  | sym name => .sym name
  | kw name => .kw name
  | list id .. => .list id
  | vec id .. => .vec id
  | map id .. => .map id
  | pair id .. => .pair id
  | atom address => .atom address
  | closure id .. => .closure id
  | builtin f wrapped id _ => if wrapped then .wrapped id else .builtin f

section

variable {v w : Value} {m n : Number}

theorem mark_of_exact {x : ExactValue} (hv : v.number? = some m) (hx : m.exactValue? = some x) :
    v.mark = .number x := by
  cases v <;> cases hv <;> cases hx <;> rfl

theorem equal_of_numbers (hv : v.number? = some m) (hw : w.number? = some n)
    (h : m ≠ .nan ∨ n ≠ .nan) : v.equal w = m.eq n := by
  cases v <;> cases hv <;> cases w <;> cases hw <;> first | rfl | simp at h

theorem eq_nan_of_none (hv : v.number? = some m) (hm : m.exactValue? = none) :
    ∃ id, v = nan id := by
  obtain rfl := Number.exactValue?_eq_none_iff.1 hm
  cases v <;> cases hv
  exact ⟨_, rfl⟩

theorem equal_iff_mark_of_numbers (hv : v.number? = some m) (hw : w.number? = some n) :
    v.equal w = true ↔ v.mark = w.mark := by
  cases hm : m.exactValue? with
  | some x =>
    rw [equal_of_numbers hv hw (.inl (Number.ne_nan_of_exact hm)), mark_of_exact hv hm]
    cases hn : n.exactValue? with
    | some y => rw [mark_of_exact hw hn, Number.eq_iff_exact hm hn, Mark.number.injEq]
    | none =>
      obtain ⟨j, rfl⟩ := eq_nan_of_none hw hn
      simp [Number.eq_of_none (.inr hn), mark]
  | none =>
    obtain ⟨i, rfl⟩ := eq_nan_of_none hv hm
    cases hn : n.exactValue? with
    | some y =>
      rw [equal_of_numbers hv hw (.inr (Number.ne_nan_of_exact hn)), mark_of_exact hw hn]
      simp [Number.eq_of_none (.inl hm), mark]
    | none =>
      obtain ⟨j, rfl⟩ := eq_nan_of_none hw hn
      simp [equal, mark]

theorem equal_iff_mark_of_none (h : v.number? = none ∨ w.number? = none) :
    v.equal w = true ↔ v.mark = w.mark := by
  cases v with
  | builtin f wrapped id info =>
    cases w with
    | builtin g wrapped' id' info' => cases wrapped <;> cases wrapped' <;> simp [equal, mark]
    | _ => cases wrapped <;> simp [equal, mark, number?]
  | _ =>
    cases w with
    | builtin g wrapped id info => cases wrapped <;> simp [equal, mark, number?]
    | _ => simp_all [equal, mark, number?]

end

/-- Equality of the language is equality of marks. -/
theorem equal_iff_mark (a b : Value) : a.equal b = true ↔ a.mark = b.mark := by
  cases ha : a.number? with
  | none => exact equal_iff_mark_of_none (.inl ha)
  | some m =>
    cases hb : b.number? with
    | none => exact equal_iff_mark_of_none (.inr hb)
    | some n => exact equal_iff_mark_of_numbers ha hb

theorem equal_equivalence : Equivalence fun a b : Value => a.equal b = true := by
  simp only [equal_iff_mark]
  exact ⟨fun _ => rfl, Eq.symm, Eq.trans⟩

def exactValue? (v : Value) : Option ExactValue := v.number?.bind Number.exactValue?

def IsOrdered (v : Value) : Prop := ∃ n, v.number? = some n ∧ n ≠ .nan

theorem IsOrdered.exact {v : Value} (h : v.IsOrdered) : ∃ x, v.exactValue? = some x := by
  obtain ⟨n, hn, hnan⟩ := h
  cases hx : n.exactValue? with
  | some x => exact ⟨x, by rw [exactValue?, hn, Option.bind_some, hx]⟩
  | none => exact absurd (Number.exactValue?_eq_none_iff.1 hx) hnan

end Value

namespace Core

/-- However the function is bound and whatever the store is, it answers the arguments with this
value and leaves the store as it is. -/
def Answers (f : Core) (args : List Value) (answer : Value) : Prop :=
  ∀ (wrapped : Bool) (id : Identity) (info : Value) (s : Store),
    EndsWith (.call (.builtin (.core f) wrapped id info) args) s (.ok answer s)

/-- The relation of two values that a function of two arguments answers with true. -/
def Relates (f : Core) (a b : Value) : Prop := f.Answers [a, b] (.bool true)

/-- How a comparator orders numbers. -/
def ordering? : Core → Option (Number → Number → Bool)
  | less => some Number.lt
  | lessEqual => some Number.le
  | greater => some fun a b => b.lt a
  | greaterEqual => some fun a b => b.le a
  | _ => none

def comparators : List Core := [less, lessEqual, greater, greaterEqual]

variable {f : Core} {a b : Value}

theorem endsWith_of_run {args : List Value} {v : Value} {s s' : Store}
    (h : ∀ nested limit, f.run nested limit args s = .ok v s') (wrapped : Bool) (id : Identity)
    (info : Value) :
    EndsWith (.call (.builtin (.core f) wrapped id info) args) s (.ok v s') := by
  have hrun (nested : Nested) (limit : Nat) :
      runBuiltin (.core f) nested limit args s = .ok v s' := by
    change inside f.name (f.run nested limit args) s = _
    rw [inside, h nested limit]
  have hended : Ended (.ok v s' : Result Value) := trivial
  exact (endsWithin_builtin hrun hended 0 wrapped id info).endsWith

theorem answers_of_run {args : List Value} {answer : Value}
    (h : ∀ nested limit s, f.run nested limit args s = .ok answer s) : f.Answers args answer :=
  fun wrapped id info s => endsWith_of_run (fun nested limit => h nested limit s) wrapped id info

theorem Answers.relates_iff {answer : Bool} (h : f.Answers [a, b] (.bool answer)) :
    f.Relates a b ↔ answer = true := by
  constructor
  · intro htrue
    have hsame := (h false 0 .nil (.empty 0)).unique (htrue false 0 .nil (.empty 0))
    injection hsame with hvalue
    injection hvalue
  · rintro rfl
    exact h

theorem answers_equal (a b : Value) : equal.Answers [a, b] (.bool (a.equal b)) :=
  answers_of_run fun _ _ _ => rfl

theorem relates_equal_iff : equal.Relates a b ↔ a.equal b = true := (answers_equal a b).relates_iff

theorem answers_of_ordering {op : Number → Number → Bool} {m n : Number}
    (hf : f.ordering? = some op) (ha : a.number? = some m) (hb : b.number? = some n) :
    f.Answers [a, b] (.bool (op m n)) := by
  have hcompare (symbol : String) (s : Store) :
      Arithmetic.compare symbol op [a, b] s = .ok (.bool (op m n)) s := by
    have hnumbers : numbers symbol [a, b] s = .ok [m, n] s := by
      simp only [numbers, List.mapM_cons, List.mapM_nil, ha, hb]
      rfl
    exact (bind_of_ok rfl).trans (bind_of_ok hnumbers)
  cases f <;> cases hf <;> exact answers_of_run fun _ _ s => hcompare _ s

theorem exists_ordering (h : f ∈ comparators) : ∃ op, f.ordering? = some op := by
  simp only [comparators, List.mem_cons, List.not_mem_nil, or_false] at h
  obtain rfl | rfl | rfl | rfl := h <;> exact ⟨_, rfl⟩

/-- A comparator with a NaN among its operands answers with false. -/
theorem ordering_nan {op : Number → Number → Bool} (hf : f.ordering? = some op) {m n : Number}
    (h : m.exactValue? = none ∨ n.exactValue? = none) : op m n = false := by
  cases f <;> cases hf
  case less => exact Number.lt_of_none h
  case lessEqual => exact Number.le_of_none h
  case greater => exact Number.lt_of_none h.symm
  case greaterEqual => exact Number.le_of_none h.symm

section

variable {x y : ExactValue}

theorem relates_iff_of_exact {op : Number → Number → Bool} {R : ExactValue → ExactValue → Prop}
    (hf : f.ordering? = some op)
    (hop : ∀ {m n x y}, m.exactValue? = some x → n.exactValue? = some y → (op m n = true ↔ R x y))
    (ha : a.exactValue? = some x) (hb : b.exactValue? = some y) : f.Relates a b ↔ R x y := by
  obtain ⟨m, hm, hx⟩ := Option.bind_eq_some_iff.1 ha
  obtain ⟨n, hn, hy⟩ := Option.bind_eq_some_iff.1 hb
  rw [(answers_of_ordering hf hm hn).relates_iff, hop hx hy]

theorem relates_less_iff (ha : a.exactValue? = some x) (hb : b.exactValue? = some y) :
    less.Relates a b ↔ x < y := relates_iff_of_exact rfl Number.lt_iff_exact ha hb

theorem relates_lessEqual_iff (ha : a.exactValue? = some x) (hb : b.exactValue? = some y) :
    lessEqual.Relates a b ↔ x ≤ y := relates_iff_of_exact rfl Number.le_iff_exact ha hb

theorem relates_greater_iff (ha : a.exactValue? = some x) (hb : b.exactValue? = some y) :
    greater.Relates a b ↔ y < x :=
  relates_iff_of_exact (R := fun x y => y < x) rfl (fun hx hy => Number.lt_iff_exact hy hx) ha hb

theorem relates_greaterEqual_iff (ha : a.exactValue? = some x) (hb : b.exactValue? = some y) :
    greaterEqual.Relates a b ↔ y ≤ x :=
  relates_iff_of_exact (R := fun x y => y ≤ x) rfl (fun hx hy => Number.le_iff_exact hy hx) ha hb

theorem relates_equal_iff_exact (ha : a.exactValue? = some x) (hb : b.exactValue? = some y) :
    equal.Relates a b ↔ x = y := by
  obtain ⟨m, hm, hx⟩ := Option.bind_eq_some_iff.1 ha
  obtain ⟨n, hn, hy⟩ := Option.bind_eq_some_iff.1 hb
  rw [relates_equal_iff, Value.equal_iff_mark, Value.mark_of_exact hm hx,
    Value.mark_of_exact hn hy, Mark.number.injEq]

theorem relates_trichotomy (ha : a.exactValue? = some x) (hb : b.exactValue? = some y) :
    ∃! f, f ∈ [less, equal, greater] ∧ f.Relates a b := by
  have hless := relates_less_iff ha hb
  have hequal := relates_equal_iff_exact ha hb
  have hgreater := relates_greater_iff ha hb
  obtain h | h | h := lt_trichotomy x y
  · refine ⟨less, ⟨by simp, hless.2 h⟩, ?_⟩
    simp [hless, hequal, hgreater, h.ne, h.le]
  · refine ⟨equal, ⟨by simp, hequal.2 h⟩, ?_⟩
    simp [hless, hequal, hgreater, h]
  · refine ⟨greater, ⟨by simp, hgreater.2 h⟩, ?_⟩
    simp [hless, hequal, hgreater, h.ne', h.le]

theorem relates_trans (hf : f ∈ comparators) {c : Value} {z : ExactValue}
    (ha : a.exactValue? = some x) (hb : b.exactValue? = some y) (hc : c.exactValue? = some z)
    (hab : f.Relates a b) (hbc : f.Relates b c) : f.Relates a c := by
  simp only [comparators, List.mem_cons, List.not_mem_nil, or_false] at hf
  obtain rfl | rfl | rfl | rfl := hf
  · rw [relates_less_iff ha hb] at hab
    rw [relates_less_iff hb hc] at hbc
    exact (relates_less_iff ha hc).2 (hab.trans hbc)
  · rw [relates_lessEqual_iff ha hb] at hab
    rw [relates_lessEqual_iff hb hc] at hbc
    exact (relates_lessEqual_iff ha hc).2 (hab.trans hbc)
  · rw [relates_greater_iff ha hb] at hab
    rw [relates_greater_iff hb hc] at hbc
    exact (relates_greater_iff ha hc).2 (hbc.trans hab)
  · rw [relates_greaterEqual_iff ha hb] at hab
    rw [relates_greaterEqual_iff hb hc] at hbc
    exact (relates_greaterEqual_iff ha hc).2 (hbc.trans hab)

end

/-- Equality is an equivalence relation on all values, and it relates no truth value to a number.
The comparators answer for all numbers, and together with equality they make the numbers other than
NaN one total order. A comparator that is given a NaN answers with false. -/
theorem equality_and_order_coherent :
    (∀ a b, ∃ answer, equal.Answers [a, b] (.bool answer)) ∧ Equivalence equal.Relates ∧
    (∀ b v, v.number?.isSome →
      equal.Answers [.bool b, v] (.bool false) ∧ equal.Answers [v, .bool b] (.bool false)) ∧
    (∀ f ∈ comparators, ∀ a b, a.number?.isSome → b.number?.isSome →
      ∃ answer, f.Answers [a, b] (.bool answer)) ∧
    (∀ a b, a.IsOrdered → b.IsOrdered →
      (∃! f, f ∈ [less, equal, greater] ∧ f.Relates a b) ∧
      (lessEqual.Relates a b ↔ less.Relates a b ∨ equal.Relates a b) ∧
      (greaterEqual.Relates a b ↔ greater.Relates a b ∨ equal.Relates a b)) ∧
    (∀ f ∈ comparators, ∀ a b c, a.IsOrdered → b.IsOrdered → c.IsOrdered →
      f.Relates a b → f.Relates b c → f.Relates a c) ∧
    ∀ f ∈ comparators, ∀ id v, v.number?.isSome →
      f.Answers [.nan id, v] (.bool false) ∧ f.Answers [v, .nan id] (.bool false) := by
  refine ⟨fun a b => ⟨_, answers_equal a b⟩, ?_, ?_, ?_, ?_, ?_, ?_⟩
  · simpa only [← relates_equal_iff] using Value.equal_equivalence
  · intro b v hv
    have hleft : (Value.bool b).equal v = false := by cases v <;> first | rfl | cases hv
    have hright : v.equal (.bool b) = false := by cases v <;> first | rfl | cases hv
    exact ⟨hleft ▸ answers_equal _ _, hright ▸ answers_equal _ _⟩
  · intro f hf a b ha hb
    obtain ⟨op, hop⟩ := exists_ordering hf
    obtain ⟨m, hm⟩ := Option.isSome_iff_exists.1 ha
    obtain ⟨n, hn⟩ := Option.isSome_iff_exists.1 hb
    exact ⟨_, answers_of_ordering hop hm hn⟩
  · intro a b ha hb
    obtain ⟨x, hx⟩ := ha.exact
    obtain ⟨y, hy⟩ := hb.exact
    refine ⟨relates_trichotomy hx hy, ?_, ?_⟩
    · rw [relates_lessEqual_iff hx hy, relates_less_iff hx hy, relates_equal_iff_exact hx hy,
        le_iff_lt_or_eq]
    · rw [relates_greaterEqual_iff hx hy, relates_greater_iff hx hy,
        relates_equal_iff_exact hx hy, le_iff_lt_or_eq, eq_comm]
  · intro f hf a b c ha hb hc
    obtain ⟨x, hx⟩ := ha.exact
    obtain ⟨y, hy⟩ := hb.exact
    obtain ⟨z, hz⟩ := hc.exact
    exact relates_trans hf hx hy hz
  · intro f hf id v hv
    obtain ⟨op, hop⟩ := exists_ordering hf
    obtain ⟨n, hn⟩ := Option.isSome_iff_exists.1 hv
    have hleft := answers_of_ordering hop (rfl : (Value.nan id).number? = some .nan) hn
    have hright := answers_of_ordering hop hn (rfl : (Value.nan id).number? = some .nan)
    rw [ordering_nan hop (.inl rfl)] at hleft
    rw [ordering_nan hop (.inr rfl)] at hright
    exact ⟨hleft, hright⟩

/-- A double and the integer next to it, a truth value and one, and the literal NaN and one. -/
theorem equality_and_order_coherent_mixed :
    (∃! f, f ∈ [less, equal, greater] ∧
      f.Relates (.float ⟨false, 1076 * Nat.pow 2 52, by decide⟩) (.int (Nat.pow 2 53 + 1))) ∧
    equal.Answers [.bool true, .int 1] (.bool false) ∧
    less.Answers [.nan Value.literalNan, .int 1] (.bool false) := by
  obtain ⟨-, -, hbool, -, hordered, -, hnan⟩ := equality_and_order_coherent
  refine ⟨(hordered _ _ ⟨_, rfl, by simp⟩ ⟨_, rfl, by simp⟩).1, ?_, ?_⟩
  · exact (hbool true (.int 1) rfl).1
  · exact (hnan less (by simp [comparators]) Value.literalNan (.int 1) rfl).1

end Core

end SmallLisp
