import Mathlib.Tactic
import SmallLisp.Interpreter
import SmallLisp.Proofs.World.Confined

/-!
# New interpreters

Any number of interpreters may be made in one store. Each has a root scope of its own, from which no
scope but itself and no atom can be reached, since the root scope binds nothing but builtins and
numbers.
-/

namespace SmallLisp.Interpreter

def settle (s : Store) : Store :=
  let (bindings, next) := rootBindings.run s.nextIdentity
  let s := { s with scopes := s.scopes.push ⟨rootName, none, bindings⟩, nextIdentity := next }
  s.record Eval.debugLevel logger
    ("Interpreter created with " ++ toString bindings.length ++ " root bindings")

/-- A store with a number of new interpreters. Their root scopes are counted from zero. -/
def settlement (logLevel : Nat) : (count : Nat) → Store
  | 0 => Store.empty logLevel
  | count + 1 => settle (settlement logLevel count)

theorem settlement_one (logLevel : Nat) : settlement logLevel 1 = create logLevel := rfl

/-- A value refers to no scope but the root scope of its interpreter and to no atom. -/
def Plain (next : Identity) (v : Value) : Prop :=
  ∀ root k i, v.Refers root k i → k = .object ∧ i < next ∨ k = .scope ∧ i = root

theorem Plain.mono {next next' : Identity} {v : Value} (h : Plain next v) (hle : next ≤ next') :
    Plain next' v := by
  intro root k i hrefers
  rcases h root k i hrefers with ⟨hk, hi⟩ | hroot
  · exact .inl ⟨hk, hi.trans_le hle⟩
  · exact .inr hroot

theorem plain_builtin {next id : Identity} (f : Builtin) (wrapped : Bool) (hid : id < next) :
    Plain next (.builtin f wrapped id .nil) := by
  rintro root k i (hplace | ⟨hpart, hrefers⟩)
  · cases f with
    | eval =>
      rcases List.mem_cons.1 hplace with hplace | hplace
      · obtain ⟨rfl, rfl⟩ := Prod.mk.inj hplace
        exact .inl ⟨rfl, hid⟩
      · obtain ⟨rfl, rfl⟩ := Prod.mk.inj (List.mem_singleton.1 hplace)
        exact .inr ⟨rfl, rfl⟩
    | core | numeric =>
      obtain ⟨rfl, rfl⟩ := Prod.mk.inj (List.mem_singleton.1 hplace)
      exact .inl ⟨rfl, hid⟩
  · obtain rfl := List.mem_singleton.1 hpart
    rcases hrefers with hplace | ⟨hpart, -⟩
    · cases hplace
    · cases hpart

theorem plain_constants {next : Identity} (hliteral : Value.literalNan < next) :
    ∀ entry ∈ constants, Plain next entry.2 := by
  have hnumber {x : Flonum} : Plain next (.float x) := by
    rintro root k i (hplace | ⟨hpart, -⟩)
    · cases hplace
    · cases hpart
  have hnan : Plain next (.nan Value.literalNan) := by
    rintro root k i (hplace | ⟨hpart, -⟩)
    · obtain ⟨rfl, rfl⟩ := Prod.mk.inj (List.mem_singleton.1 hplace)
      exact .inl ⟨rfl, hliteral⟩
    · cases hpart
  simp only [constants, List.forall_mem_cons, List.not_mem_nil, false_implies, implies_true,
    and_true]
  exact ⟨hnumber, hnumber, hnan, hnumber, hnumber⟩

/-- Bindings are made of identities from one on, and refer to nothing but used identities. -/
structure Made (n : Identity) (bindings : Bindings) (next : Identity) : Prop where
  le : n ≤ next
  plain : ∀ entry ∈ bindings, Plain next entry.2

theorem made_mapM {α : Type} {f : α → StateM Identity (String × Value)}
    (hf : ∀ a n, Value.literalNan < n → Made n [((f a).run n).1] ((f a).run n).2) (as : List α)
    {n : Identity} (hn : Value.literalNan < n) :
    Made n ((as.mapM f).run n).1 ((as.mapM f).run n).2 := by
  induction as generalizing n with
  | nil => exact ⟨le_rfl, List.forall_mem_nil _⟩
  | cons a as ih =>
    rw [List.mapM_cons]
    have hhead := hf a n hn
    have hrest := ih (hn.trans_le hhead.le)
    refine ⟨hhead.le.trans hrest.le, List.forall_mem_cons.2 ⟨?_, hrest.plain⟩⟩
    exact (hhead.plain _ List.mem_cons_self).mono hrest.le

theorem made_wrapped (f : Builtin) (n : Identity) :
    Made n [((wrapped f).run n).1] ((wrapped f).run n).2 :=
  ⟨Nat.le_succ n, List.forall_mem_singleton.2 (plain_builtin f true (Nat.lt_succ_self n))⟩

theorem made_coreBinding (f : Core) {n : Identity} (hn : Value.literalNan < n) :
    Made n [((coreBinding f).run n).1] ((coreBinding f).run n).2 := by
  unfold coreBinding
  split_ifs
  · exact made_wrapped _ n
  · exact ⟨le_rfl, List.forall_mem_singleton.2 (plain_builtin _ false hn)⟩

theorem Made.append {n m next : Identity} {a b : Bindings} (ha : Made n a m) (hb : Made m b next) :
    Made n (a ++ b) next where
  le := ha.le.trans hb.le
  plain := by
    intro entry hentry
    rcases List.mem_append.1 hentry with hentry | hentry
    · exact (ha.plain entry hentry).mono hb.le
    · exact hb.plain entry hentry

theorem made_rootBindings {n : Identity} (hn : Value.literalNan < n) :
    Made n (rootBindings.run n).1 (rootBindings.run n).2 := by
  have hcore := made_mapM (fun f _ => made_coreBinding f) Core.all hn
  have hmathematical := made_mapM (fun f n _ => made_wrapped (.numeric f) n) Numeric.mathematical
    (hn.trans_le hcore.le)
  have hbefore := hcore.append hmathematical
  have hconstants := hbefore.append ⟨le_rfl, plain_constants (hn.trans_le hbefore.le)⟩
  have hgeneral := made_mapM (fun f n _ => made_wrapped (.numeric f) n) Numeric.general
    (hn.trans_le hconstants.le)
  unfold rootBindings
  simp only [StateT.run_bind, StateT.run_pure]
  exact (hconstants.append hgeneral).append (made_wrapped .eval _)

/-- A store with nothing in it but the root scopes of new interpreters. -/
structure New (s : Store) : Prop where
  literal : Value.literalNan < s.nextIdentity
  content (a : Address) : s.content? a = none
  outer {i : ScopeId} {scope : Scope} : s.scope? i = some scope → scope.outer = none
  binding {i : ScopeId} {scope : Scope} {entry : String × Value} : s.scope? i = some scope →
    entry ∈ scope.bindings → Plain s.nextIdentity entry.2

section

variable (s : Store)

theorem scopes_settle : (settle s).scopes =
    s.scopes.push ⟨rootName, none, (rootBindings.run s.nextIdentity).1⟩ := by
  unfold settle Store.record
  dsimp only
  split_ifs <;> rfl

theorem contents_settle : (settle s).contents = s.contents := by
  unfold settle Store.record
  dsimp only
  split_ifs <;> rfl

theorem nextIdentity_settle :
    (settle s).nextIdentity = (rootBindings.run s.nextIdentity).2 := by
  unfold settle Store.record
  dsimp only
  split_ifs <;> rfl

end

theorem new_settle {s : Store} (h : New s) : New (settle s) := by
  have hmade := made_rootBindings h.literal
  have hscope {i : ScopeId} {scope : Scope} (hi : (settle s).scope? i = some scope) :
      s.scope? i = some scope ∨ scope = ⟨rootName, none, (rootBindings.run s.nextIdentity).1⟩ := by
    rw [Store.scope?, scopes_settle, Array.getElem?_push] at hi
    split_ifs at hi
    · exact .inr (Option.some.inj hi).symm
    · exact .inl hi
  constructor
  · exact h.literal.trans_le (hmade.le.trans_eq (nextIdentity_settle s).symm)
  · intro a
    rw [Store.content?, contents_settle]
    exact h.content a
  · intro i scope hi
    rcases hscope hi with hold | rfl
    · exact h.outer hold
    · rfl
  · intro i scope entry hi hentry
    rw [nextIdentity_settle]
    rcases hscope hi with hold | rfl
    · exact (h.binding hold hentry).mono hmade.le
    · exact hmade.plain entry hentry

theorem new_settlement (logLevel count : Nat) : New (settlement logLevel count) := by
  induction count with
  | zero =>
    have hscope (i : ScopeId) : (settlement logLevel 0).scope? i = none := rfl
    refine ⟨Nat.zero_lt_one, fun _ => rfl, fun hi => ?_, fun hi => ?_⟩
    · cases (hscope _).symm.trans hi
    · cases (hscope _).symm.trans hi
  | succ count ih => exact new_settle ih

theorem size_settlement (logLevel count : Nat) :
    (settlement logLevel count).scopes.size = count := by
  induction count with
  | zero => rfl
  | succ count ih => rw [settlement, scopes_settle, Array.size_push, ih]

theorem New.sound {s : Store} (h : New s) {root : ScopeId} (hroot : root < s.scopes.size) :
    s.Sound root where
  literal := h.literal
  outer hi houter := by
    rw [h.outer hi] at houter
    cases houter
  binding hi hentry k j hrefers := by
    rcases h.binding hi hentry root k j hrefers with ⟨rfl, hj⟩ | ⟨rfl, rfl⟩
    · exact hj
    · exact hroot
  content hcontent := by
    rw [h.content] at hcontent
    cases hcontent

/-- A new interpreter reaches no scope but its root scope, and no atom. -/
theorem New.reach {s : Store} (h : New s) {root : ScopeId} {k : Kind} {i : Nat}
    (hreach : s.Reach root (startIn root) k i) : k = .object ∨ k = .scope ∧ i = root := by
  induction hreach with
  | start hstart =>
    rcases hstart with hscope | ⟨rfl, -⟩
    · exact .inr hscope
    · exact .inl rfl
  | outer _ hi houter _ =>
    rw [h.outer hi] at houter
    cases houter
  | @binding _ _ _ k j _ hi hentry hrefers _ =>
    rcases h.binding hi hentry root k j hrefers with ⟨rfl, -⟩ | hroot
    · exact .inl rfl
    · exact .inr hroot
  | content _ hcontent _ _ =>
    rw [h.content] at hcontent
    cases hcontent

end SmallLisp.Interpreter
