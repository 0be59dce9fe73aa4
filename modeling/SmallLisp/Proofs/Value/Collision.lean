import Mathlib.Tactic
import SmallLisp.Numeric.Arguments
import SmallLisp.Proofs.Flonum.Nearest

/-!
# Values under the same key

The key of a value is compared here with equality of the language. Equal values have the same
key. The converse fails for truth values, which are not numbers for equality but have the keys of
one and zero, and for tuples, of which equality knows nothing but their identity.
-/

namespace SmallLisp

namespace Flonum

theorem integer?_eq_some_iff {x : Flonum} {k : ℤ} :
    x.integer? = some k ↔ x.isFinite = true ∧ x.signedUnits = k * (oneUnits : ℤ) := by
  have hpos : (0 : ℤ) < oneUnits := Int.natCast_pos.2 oneUnits_pos
  have hdiv : (x.units : ℤ) = oneUnits * (x.units / oneUnits : ℕ) + (x.units % oneUnits : ℕ) := by
    exact_mod_cast (Nat.div_add_mod x.units oneUnits).symm
  unfold integer? signedUnits
  constructor
  · intro h
    split at h
    · next hwhole =>
      obtain ⟨hfinite, hmod⟩ := Bool.and_eq_true_iff.1 hwhole
      rw [beq_iff_eq] at hmod
      refine ⟨hfinite, ?_⟩
      rw [← Option.some.inj h, hdiv, hmod]
      split_ifs <;> push_cast <;> ring
    · cases h
  · rintro ⟨hfinite, hunits⟩
    have hmod : x.units % oneUnits = 0 := by
      apply Nat.mod_eq_zero_of_dvd
      apply Int.natCast_dvd_natCast.1
      split_ifs at hunits
      · exact ⟨-k, by rw [mul_neg, mul_comm, ← hunits, neg_neg]⟩
      · exact ⟨k, by rw [mul_comm, ← hunits]⟩
    rw [if_pos (by simp [hfinite, hmod])]
    rw [hmod, Nat.cast_zero, add_zero] at hdiv
    congr 1
    apply Int.eq_of_mul_eq_mul_right hpos.ne'
    rw [← hunits, hdiv]
    split_ifs <;> ring

theorem eq_of_signedUnits {x y : Flonum} (hx : x.isFinite) (hnone : x.integer? = none)
    (h : x.signedUnits = y.signedUnits) : x = y := by
  have hne : x.signedUnits ≠ 0 := fun hzero =>
    Option.ne_none_iff_exists'.2 ⟨0, integer?_eq_some_iff.2 ⟨hx, by rw [hzero, zero_mul]⟩⟩ hnone
  have hparts : x.neg = y.neg ∧ x.units = y.units := by
    unfold signedUnits at h hne
    split_ifs at h hne with hxneg hyneg hyneg <;> simp_all
  rw [← x.nearest_units, ← y.nearest_units, hparts.1, hparts.2]

theorem eq_of_isInfinite {x y : Flonum} (hx : x.isInfinite) (hy : y.isInfinite)
    (h : x.neg = y.neg) : x = y :=
  ext h ((beq_iff_eq.1 hx).trans (beq_iff_eq.1 hy).symm)

end Flonum

namespace Number

theorem place?_of_isInfinite {x : Flonum} (h : x.isInfinite = true) :
    (float x).place? = some (if x.neg then .bottom else .top) := by
  rw [place?, h, if_pos rfl]

theorem place?_of_isFinite {x : Flonum} (h : x.isInfinite = false) :
    (float x).place? = some (.at x.signedUnits) := by
  rw [place?, h, if_neg Bool.false_ne_true]

theorem integer?_eq_some_iff {m : Number} {k : ℤ} :
    m.integer? = some k ↔ m.place? = some (.at (k * (Flonum.oneUnits : ℤ))) := by
  cases m with
  | int n =>
    have hpos : (Flonum.oneUnits : ℤ) ≠ 0 := (Int.natCast_pos.2 Flonum.oneUnits_pos).ne'
    rw [integer?, place?, Option.some_inj, Option.some_inj, Place.at.injEq, mul_left_inj' hpos]
  | float x =>
    rw [integer?, Flonum.integer?_eq_some_iff, Flonum.isFinite]
    generalize (Flonum.oneUnits : ℤ) = one
    cases hx : x.isInfinite with
    | false => simp [place?_of_isFinite hx]
    | true => rw [place?_of_isInfinite hx]; split_ifs <;> simp
  | nan => exact ⟨nofun, nofun⟩

theorem exists_place {m n : Number} (h : m.eq n = true) :
    ∃ p, m.place? = some p ∧ n.place? = some p := by
  have hplace : ∀ m : Number, m = nan ∨ ∃ p, m.place? = some p := by
    intro m
    cases m with
    | nan => exact .inl rfl
    | _ => exact .inr ⟨_, rfl⟩
  obtain rfl | ⟨p, hm⟩ := hplace m
  · cases n <;> cases h
  · obtain rfl | ⟨q, hn⟩ := hplace n
    · cases m <;> cases h
    · obtain rfl := (eq_iff_place hm hn).1 h
      exact ⟨p, hm, hn⟩

/-- A number that is no integer is the only one in its place. -/
theorem eq_of_place? {m n : Number} {p : Place} (hnone : m.integer? = none)
    (hm : m.place? = some p) (hn : n.place? = some p) : ∃ x, m = .float x ∧ n = .float x := by
  have hnone' : n.integer? = none := by
    rw [Option.eq_none_iff_forall_ne_some] at hnone ⊢
    intro k hk
    exact hnone k (integer?_eq_some_iff.2 (hm.trans (hn.symm.trans (integer?_eq_some_iff.1 hk))))
  cases m with
  | int | nan => contradiction
  | float x =>
    cases n with
    | int | nan => contradiction
    | float y =>
      have hplace := hm.trans hn.symm
      suffices x = y from ⟨x, rfl, this ▸ rfl⟩
      cases hx : x.isInfinite with
      | false =>
        cases hy : y.isInfinite with
        | false =>
          rw [place?_of_isFinite hx, place?_of_isFinite hy] at hplace
          refine Flonum.eq_of_signedUnits ?_ hnone (by simpa using hplace)
          simp [Flonum.isFinite, hx]
        | true =>
          rw [place?_of_isFinite hx, place?_of_isInfinite hy] at hplace
          split_ifs at hplace <;> cases hplace
      | true =>
        cases hy : y.isInfinite with
        | false =>
          rw [place?_of_isInfinite hx, place?_of_isFinite hy] at hplace
          split_ifs at hplace <;> cases hplace
        | true =>
          rw [place?_of_isInfinite hx, place?_of_isInfinite hy] at hplace
          refine Flonum.eq_of_isInfinite hx hy ?_
          cases hxneg : x.neg <;> cases hyneg : y.neg <;> simp_all

theorem eq_iff {m n : Number} : m.eq n = true ↔
    (∃ k, m.integer? = some k ∧ n.integer? = some k) ∨
      ∃ x, m = .float x ∧ n = .float x := by
  constructor
  · intro h
    obtain ⟨p, hm, hn⟩ := exists_place h
    cases hwhole : m.integer? with
    | none => exact .inr (eq_of_place? hwhole hm hn)
    | some k =>
      refine .inl ⟨k, rfl, integer?_eq_some_iff.2 ?_⟩
      rw [hn, ← hm, integer?_eq_some_iff.1 hwhole]
  · rintro (⟨k, hm, hn⟩ | ⟨x, rfl, rfl⟩)
    · exact (eq_iff_place (integer?_eq_some_iff.1 hm) (integer?_eq_some_iff.1 hn)).2 rfl
    · exact (eq_iff_place rfl rfl).2 rfl

end Number

namespace Builtin

def all : List Builtin :=
  Core.all.map core ++ (Numeric.mathematical ++ Numeric.general).map numeric ++ [eval]

theorem mem_all (f : Builtin) : f ∈ all := by
  cases f with
  | core f => cases f <;> decide
  | numeric f => cases f <;> decide
  | eval => decide

theorem nodup_name : (all.map name).Nodup := by decide +kernel

theorem name_injective : Function.Injective name := fun f g h =>
  List.inj_on_of_nodup_map nodup_name (mem_all f) (mem_all g) h

end Builtin

namespace Value

/-- The identity of a closure or of a wrapped builtin. -/
def function? : Value → Option Identity
  | closure id .. => some id
  | builtin _ true id _ => some id
  | _ => none

/-- Two values collide as keys of a map when they are equal or become so with truth values counting
as the numbers one and zero. Functions are the same when they have one identity, and tuples are
compared element by element. -/
inductive Collides : Value → Value → Prop
  | equal {v w : Value} : (∀ id first second, v ≠ .pair id first second) → v.equal w = true →
      Collides v w
  | quantity {v w : Value} {m n : Number} : v.quantity? = some m → w.quantity? = some n →
      m.eq n = true → Collides v w
  | function {v w : Value} {id : Identity} : v.function? = some id → w.function? = some id →
      Collides v w
  | pair {id id' : Identity} {first second first' second' : Value} : Collides first first' →
      Collides second second' → Collides (.pair id first second) (.pair id' first' second')

inductive HasKey : Value → Key → Prop
  | nil : HasKey .nil .nil
  | whole {v : Value} {m : Number} {n : ℤ} : v.quantity? = some m → m.integer? = some n →
      HasKey v (.int n)
  | float {x : Flonum} : x.integer? = none → HasKey (.float x) (.float x)
  | nan (id : Identity) : HasKey (.nan id) (.nan id)
  | str (s : String) : HasKey (.str s) (.str s)
  | sym (name : String) : HasKey (.sym name) (.sym name)
  | kw (name : String) : HasKey (.kw name) (.kw name)
  | pair {id : Identity} {first second : Value} {k l : Key} : HasKey first k → HasKey second l →
      HasKey (.pair id first second) (.pair k l)
  | cell (address : Address) : HasKey (.atom address) (.cell address)
  | object {v : Value} {id : Identity} : v.function? = some id → HasKey v (.object id)
  | builtin (f : Builtin) (id : Identity) (info : Value) :
      HasKey (.builtin f false id info) (.builtin f.name)

theorem hasKey_of_key? {v : Value} {k : Key} (h : v.key? = some k) : HasKey v k := by
  fun_induction key? v generalizing k with
  | case1 => cases h; exact .nil
  | case2 b => cases h; exact .whole rfl rfl
  | case3 n => cases h; exact .whole rfl rfl
  | case4 x =>
    obtain rfl := Option.some.inj h
    unfold Key.ofFlonum
    split
    · next hwhole => exact .whole rfl hwhole
    · next hnone => exact .float hnone
  | case5 id => cases h; exact .nan id
  | case6 s => cases h; exact .str s
  | case7 name => cases h; exact .sym name
  | case8 name => cases h; exact .kw name
  | case9 id first second ihfirst ihsecond =>
    obtain ⟨k, hk, h⟩ := Option.bind_eq_some_iff.1 h
    obtain ⟨l, hl, h⟩ := Option.bind_eq_some_iff.1 h
    obtain rfl := Option.some.inj h
    exact .pair (ihfirst hk) (ihsecond hl)
  | case10 address => cases h; exact .cell address
  | case11 id => cases h; exact .object rfl
  | case12 f wrapped id info =>
    obtain rfl := Option.some.inj h
    cases wrapped with
    | false => exact .builtin f id info
    | true => exact .object rfl
  | _ => cases h

/-- The values that are no keys: collections, and tuples that have one of these in them. -/
inductive Keyless : Value → Prop
  | list {id : Identity} {items : List Value} {marked : Bool} {info : Value} :
      Keyless (.list id items marked info)
  | vec {id : Identity} {items : List Value} {info : Value} : Keyless (.vec id items info)
  | map {id : Identity} {entries : List (Value × Value)} {marked : Bool} {info : Value} :
      Keyless (.map id entries marked info)
  | first {id : Identity} {first second : Value} : Keyless first → Keyless (.pair id first second)
  | second {id : Identity} {first second : Value} : Keyless second → Keyless (.pair id first second)

theorem key?_eq_none_iff {v : Value} : v.key? = none ↔ v.Keyless := by
  constructor
  · intro h
    fun_induction key? v with
    | case9 id first second ihfirst ihsecond =>
      cases hfirst : first.key? with
      | none => exact .first (ihfirst hfirst)
      | some k =>
        cases hsecond : second.key? with
        | none => exact .second (ihsecond hsecond)
        | some l =>
          rw [hfirst, hsecond] at h
          cases h
    | case13 => exact .list
    | case14 => exact .vec
    | case15 => exact .map
    | _ => cases h
  · intro h
    induction h with
    | list | vec | map => rfl
    | first _ ih => simp only [key?, ih, Option.bind_eq_bind, Option.bind_none]
    | @second _ first _ _ ih =>
      cases hfirst : first.key? <;> simp [key?, ih, hfirst]

theorem isSome_key?_iff {v : Value} : v.key?.isSome = true ↔ ¬ v.Keyless := by
  rw [← key?_eq_none_iff, ← ne_eq, Option.isSome_iff_ne_none]

theorem collides_of_hasKey {v w : Value} {k : Key} (hv : HasKey v k) (hw : HasKey w k) :
    v.Collides w := by
  induction hv generalizing w with
  | nil => cases hw; exact .equal (by simp) rfl
  | whole hv hm =>
    cases hw with
    | whole hw hn => exact .quantity hv hw (Number.eq_iff.2 (.inl ⟨_, hm, hn⟩))
  | float hnone =>
    cases hw
    exact .quantity rfl rfl (Number.eq_iff.2 (.inr ⟨_, rfl, rfl⟩))
  | nan id => cases hw; exact .equal (by simp) (by simp [equal])
  | str s => cases hw; exact .equal (by simp) (by simp [equal])
  | sym name => cases hw; exact .equal (by simp) (by simp [equal])
  | kw name => cases hw; exact .equal (by simp) (by simp [equal])
  | pair _ _ ihfirst ihsecond =>
    cases hw with
    | pair hfirst hsecond => exact .pair (ihfirst hfirst) (ihsecond hsecond)
  | cell address => cases hw; exact .equal (by simp) (by simp [equal])
  | object hv =>
    cases hw with
    | object hw => exact .function hv hw
  | builtin f id info =>
    generalize hname : f.name = name at hw
    cases hw with
    | builtin g id' info' =>
      exact .equal (by simp) (by simp [equal, Builtin.name_injective hname])

theorem key?_of_function? {v : Value} {id : Identity} (h : v.function? = some id) :
    v.key? = some (.object id) := by
  cases v with
  | closure => exact congrArg _ (congrArg _ (Option.some.inj h))
  | builtin f wrapped =>
    cases wrapped with
    | false => cases h
    | true => exact congrArg _ (congrArg _ (Option.some.inj h))
  | _ => cases h

theorem key?_of_integer? {v : Value} {m : Number} {k : ℤ} (h : v.quantity? = some m)
    (hk : m.integer? = some k) : v.key? = some (.int k) := by
  cases v with
  | bool b =>
    obtain rfl := Option.some.inj h
    exact congrArg (Option.map Key.int) hk
  | int n =>
    obtain rfl := Option.some.inj h
    exact congrArg (Option.map Key.int) hk
  | float x =>
    obtain rfl := Option.some.inj h
    have hx : x.integer? = some k := hk
    simp only [key?, Key.ofFlonum, hx]
  | nan id =>
    obtain rfl := Option.some.inj h
    cases hk
  | _ => cases h

theorem eq_of_quantity? {v : Value} {x : Flonum} (h : v.quantity? = some (.float x)) :
    v = .float x := by
  cases v with
  | float y => exact congrArg float (Number.float.inj (Option.some.inj h))
  | _ => cases h

theorem key?_eq_of_quantity? {v w : Value} {m n : Number} (hv : v.quantity? = some m)
    (hw : w.quantity? = some n) (h : m.eq n = true) : v.key? = w.key? := by
  obtain ⟨k, hm, hn⟩ | ⟨x, rfl, rfl⟩ := Number.eq_iff.1 h
  · rw [key?_of_integer? hv hm, key?_of_integer? hw hn]
  · rw [eq_of_quantity? hv, eq_of_quantity? hw]

theorem quantity?_of_number? {v : Value} {m : Number} (h : v.number? = some m) :
    v.quantity? = some m := by
  cases v with
  | bool => cases h
  | _ => exact h

theorem key?_eq_of_equal {v w : Value} (hpair : ∀ id first second, v ≠ .pair id first second)
    (h : v.equal w = true) : v.key? = w.key? := by
  unfold equal at h
  split at h
  · rfl
  · rw [beq_iff_eq.1 h]
  · rw [beq_iff_eq.1 h]
  · rw [beq_iff_eq.1 h]
  · rw [beq_iff_eq.1 h]
  · rw [beq_iff_eq.1 h]
  · rfl
  · rfl
  · rfl
  · exact absurd rfl (hpair _ _ _)
  · rw [beq_iff_eq.1 h]
  · simp only [key?, beq_iff_eq.1 h]
  · next f wrapped i _ g wrapped' j _ =>
    cases wrapped <;> cases wrapped' <;> simp_all [key?]
  · split at h
    · next hv hw =>
      exact key?_eq_of_quantity? (quantity?_of_number? hv) (quantity?_of_number? hw) h
    · cases h

theorem Collides.key?_eq {v w : Value} (h : v.Collides w) : v.key? = w.key? := by
  induction h with
  | equal hpair h => exact key?_eq_of_equal hpair h
  | quantity hv hw h => exact key?_eq_of_quantity? hv hw h
  | function hv hw => rw [key?_of_function? hv, key?_of_function? hw]
  | pair _ _ ihfirst ihsecond => simp only [key?, ihfirst, ihsecond]

/-- Two values with keys are under the same key when they collide. -/
theorem key?_eq_iff_collides {v w : Value} (hv : v.key?.isSome) :
    v.key? = w.key? ↔ v.Collides w := by
  refine ⟨fun h => ?_, Collides.key?_eq⟩
  obtain ⟨k, hk⟩ := Option.isSome_iff_exists.1 hv
  exact collides_of_hasKey (hasKey_of_key? hk) (hasKey_of_key? (h ▸ hk))

end Value

end SmallLisp
