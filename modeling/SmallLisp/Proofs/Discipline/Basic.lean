import Mathlib.Tactic
import SmallLisp.Eval.Run
import SmallLisp.Proofs.World.Reach

/-!
# Disciplines

A discipline says how an evaluation may change the store and which values it may come across: the
scopes in which it may bind symbols, the scopes and atoms that values may refer to, the parameter
lists of closures, the entries of maps and the components of pairs. A computation keeps a discipline
when it leaves a good store behind, whether it returns or stops, and when what it returns or raises
is allowed there.
-/

namespace SmallLisp

/-- What an evaluation is held to. Scopes and addresses are judged by how many of them there are,
so that a new one is the one behind all others. -/
structure Discipline where
  /-- How a store may look later. -/
  later : Store → Store → Prop
  /-- The scopes that closures and other scopes may refer to. -/
  captured : (count : Nat) → ScopeId → Prop
  /-- The scopes in which forms may be evaluated and symbols bound. -/
  current : (count : Nat) → ScopeId → Prop
  /-- The atoms that values may refer to. -/
  address : (count : Nat) → Address → Prop
  /-- The parameter lists of closures. -/
  params : List String → Prop
  /-- The entries of maps. -/
  entries : List (Value × Value) → Prop
  /-- The components of pairs. -/
  pairs : Value → Value → Prop
  /-- How many scopes there are at least. -/
  scopeCount : Nat
  /-- How many atoms there are at least. -/
  atomCount : Nat
  refl (s : Store) : later s s
  trans {s s' s'' : Store} : later s s' → later s' s'' → later s s''
  scopes_le {s s' : Store} : later s s' → s.scopes.size ≤ s'.scopes.size
  contents_le {s s' : Store} : later s s' → s.contents.size ≤ s'.contents.size
  captured_mono {count count' : Nat} {id : ScopeId} :
    count ≤ count' → captured count id → captured count' id
  captured_succ {count : Nat} {id : ScopeId} :
    captured (count + 1) id → captured count id ∨ id = count
  current_mono {count count' : Nat} {id : ScopeId} :
    count ≤ count' → current count id → current count' id
  current_new {count : Nat} : scopeCount ≤ count → current (count + 1) count
  captured_of_current {count : Nat} {id : ScopeId} : current count id → captured count id
  address_mono {count count' : Nat} {a : Address} :
    count ≤ count' → address count a → address count' a
  address_succ {count : Nat} {a : Address} : address (count + 1) a → address count a ∨ a = count
  address_new {count : Nat} : atomCount ≤ count → address (count + 1) count
  params_ok {params' : List String} : SpecialForm.restMarkPlaced params' → params params'
  entries_ok {entries' : List (Value × Value)} : Key.Distinct Value.key? entries' →
    (∀ entry ∈ entries', entry.1.key?.isSome) → entries entries'
  pairs_ok {first second : Value} : first.number?.isSome → second.number?.isSome →
    pairs first second
  identity (s : Store) (next : Identity) : later s { s with nextIdentity := next }
  write (s : Store) (text : String) : later s (s.write text)
  record (s : Store) (logger message : String) :
    later s (s.record Eval.debugLevel logger message)
  bind {s : Store} {id : ScopeId} : current s.scopes.size id → ∀ name value,
    later s (s.bind id name value)
  addScope {s : Store} {outer : ScopeId} : captured s.scopes.size outer → ∀ name,
    later s (s.addScope (some outer) name).2
  addContent {s : Store} {value : Value} :
    (∀ root a, value.Refers root .atom a → address s.contents.size a) →
    later s (s.addContent value).2

namespace Discipline

variable (D : Discipline)

/-- A discipline under which the content of an atom may be replaced by whatever may be come
across. -/
class Rewriting : Prop where
  setContent {s : Store} {a : Address} : D.address s.contents.size a → ∀ value,
    D.later s (s.setContent a value)

/-- A value that an evaluation may come across in a store. -/
inductive Holds (s : Store) : Value → Prop
  | nil : Holds s .nil
  | bool (b : Bool) : Holds s (.bool b)
  | int (n : ℤ) : Holds s (.int n)
  | float (x : Flonum) : Holds s (.float x)
  | nan (id : Identity) : Holds s (.nan id)
  | str (text : String) : Holds s (.str text)
  | sym (name : String) : Holds s (.sym name)
  | kw (name : String) : Holds s (.kw name)
  | list {id : Identity} {items : List Value} {marked : Bool} {info : Value} :
      (∀ v ∈ items, Holds s v) → Holds s info → Holds s (.list id items marked info)
  | vec {id : Identity} {items : List Value} {info : Value} :
      (∀ v ∈ items, Holds s v) → Holds s info → Holds s (.vec id items info)
  | map {id : Identity} {entries : List (Value × Value)} {marked : Bool} {info : Value} :
      (∀ entry ∈ entries, Holds s entry.1) → (∀ entry ∈ entries, Holds s entry.2) →
      D.entries entries → Holds s info → Holds s (.map id entries marked info)
  | pair {id : Identity} {first second : Value} :
      Holds s first → Holds s second → D.pairs first second → Holds s (.pair id first second)
  | atom {a : Address} : D.address s.contents.size a → Holds s (.atom a)
  | closure {id : Identity} {params : List String} {body : Value} {scope : ScopeId}
      {isMacro : Bool} {info : Value} :
      D.params params → Holds s body → D.captured s.scopes.size scope → Holds s info →
      Holds s (.closure id params body scope isMacro info)
  | builtin {f : Builtin} {wrapped : Bool} {id : Identity} {info : Value} :
      Holds s info → Holds s (.builtin f wrapped id info)

def AllHold (s : Store) (vs : List Value) : Prop := ∀ v ∈ vs, D.Holds s v

/-- Everything that can be looked up or read in a store may be come across, and the scope around
a scope was there before it. -/
structure Good (s : Store) : Prop where
  binding {id : ScopeId} {name : String} {v : Value} :
    D.captured s.scopes.size id → s.own? id name = some v → D.Holds s v
  outer {id outer : ScopeId} {scope : Scope} : D.captured s.scopes.size id →
    s.scope? id = some scope → scope.outer = some outer → D.captured id outer
  content {a : Address} {v : Value} :
    D.address s.contents.size a → s.content? a = some v → D.Holds s v
  scopeCount_le : D.scopeCount ≤ s.scopes.size
  atomCount_le : D.atomCount ≤ s.contents.size

def StopHolds (s : Store) : Stop → Prop
  | .fault (.raised v _) => D.Holds s v
  | _ => True

/-- An outcome that keeps the discipline, with a property of the value that is returned. -/
def Kept {α : Type} (s : Store) (post : Store → α → Prop) : EStateM.Result Stop Store α → Prop
  | .ok a s' => D.Good s' ∧ D.later s s' ∧ post s' a
  | .error stop s' => D.Good s' ∧ D.later s s' ∧ D.StopHolds s' stop

def Keeps {α : Type} (s : Store) (x : Eval α) (post : Store → α → Prop) : Prop :=
  D.Good s → D.Kept s post (x s)

variable {D}

theorem Holds.later {s s' : Store} {v : Value} (h : D.Holds s v) (hlater : D.later s s') :
    D.Holds s' v := by
  induction h with
  | nil => exact .nil
  | bool b => exact .bool b
  | int n => exact .int n
  | float x => exact .float x
  | nan id => exact .nan id
  | str text => exact .str text
  | sym name => exact .sym name
  | kw name => exact .kw name
  | list _ _ ihitems ihinfo => exact .list ihitems ihinfo
  | vec _ _ ihitems ihinfo => exact .vec ihitems ihinfo
  | map _ _ hentries _ ihkeys ihvalues ihinfo => exact .map ihkeys ihvalues hentries ihinfo
  | pair _ _ hpairs ihfirst ihsecond => exact .pair ihfirst ihsecond hpairs
  | atom ha => exact .atom (D.address_mono (D.contents_le hlater) ha)
  | closure hparams _ hscope _ ihbody ihinfo =>
    exact .closure hparams ihbody (D.captured_mono (D.scopes_le hlater) hscope) ihinfo
  | builtin _ ihinfo => exact .builtin ihinfo

theorem AllHold.later {s s' : Store} {vs : List Value} (h : D.AllHold s vs)
    (hlater : D.later s s') : D.AllHold s' vs := fun v hv => (h v hv).later hlater

theorem Holds.part {s : Store} {v p : Value} (h : D.Holds s v) (hp : p ∈ v.parts) :
    D.Holds s p := by
  cases h with
  | list hitems hinfo =>
    rcases List.mem_cons.1 hp with rfl | hp
    · exact hinfo
    · exact hitems p hp
  | vec hitems hinfo =>
    rcases List.mem_cons.1 hp with rfl | hp
    · exact hinfo
    · exact hitems p hp
  | map hkeys hvalues _ hinfo =>
    rcases List.mem_cons.1 hp with rfl | hp
    · exact hinfo
    · rcases List.mem_append.1 hp with hp | hp
      · obtain ⟨e, he, rfl⟩ := List.mem_map.1 hp
        exact hkeys e he
      · obtain ⟨e, he, rfl⟩ := List.mem_map.1 hp
        exact hvalues e he
  | pair hfirst hsecond _ =>
    rcases List.mem_cons.1 hp with rfl | hp
    · exact hfirst
    · exact List.mem_singleton.1 hp ▸ hsecond
  | closure _ hbody _ hinfo =>
    rcases List.mem_cons.1 hp with rfl | hp
    · exact hinfo
    · exact List.mem_singleton.1 hp ▸ hbody
  | builtin hinfo => exact List.mem_singleton.1 hp ▸ hinfo
  | _ => cases hp

theorem Holds.address_of_refers {s : Store} {v : Value} {root : ScopeId} {a : Address}
    (h : D.Holds s v) (hrefers : v.Refers root .atom a) : D.address s.contents.size a := by
  generalize hkind : Kind.atom = k at hrefers
  induction hrefers with
  | here hplace =>
    subst hkind
    obtain rfl := Value.eq_atom_of_mem_places hplace
    cases h with
    | atom ha => exact ha
  | part hp _ ih => exact ih (h.part hp) hkind

/-- A new atom may hold what may be come across. -/
theorem Holds.later_addContent {s : Store} {v : Value} (h : D.Holds s v) :
    D.later s (s.addContent v).2 := D.addContent fun _ _ => h.address_of_refers

end Discipline

end SmallLisp
