import Mathlib.Tactic
import SmallLisp.Proofs.Eval.MapLiteral
import SmallLisp.Proofs.Interpreter.Reachable

/-!
# Keys of maps

No two keys of a map collide and none is a collection, wherever an interpreter comes to. Maps are
made by the reader, by the host and by the evaluation of map forms. An evaluation goes through the
pairs in order, a key before its value, and looks at the key when it has both: pairs whose keys
collide become one, in the place of the first, and a key that is a collection is a fault. The pairs
behind a fault are not evaluated.
-/

namespace SmallLisp

open Eval Filter

/-- Entries of a map: their keys do not collide, and all of them are keys. -/
def WellKeyed (entries : List (Value × Value)) : Prop :=
  entries.Pairwise (fun e e' => ¬ e.1.Collides e'.1) ∧ ∀ e ∈ entries, ¬ e.1.Keyless

/-- A value that has the entries of a map if it is one. Nothing is asked of its parts. -/
def Value.ObeysKeys (v : Value) : Prop :=
  ∀ id entries marked info, v = .map id entries marked info → WellKeyed entries

theorem wellKeyed_iff {entries : List (Value × Value)} :
    WellKeyed entries ↔ Key.Distinct Value.key? entries ∧ ∀ e ∈ entries, e.1.key?.isSome := by
  simp only [WellKeyed, Key.Distinct, List.Nodup, List.pairwise_map, ← Value.isSome_key?_iff]
  refine and_congr_left fun hkeys => List.Pairwise.iff_of_mem fun {e e'} he _ => not_congr ?_
  exact (Value.key?_eq_iff_collides (hkeys e he)).symm

namespace Discipline

/-- Nothing is asked but that maps are well keyed. -/
def keying : Discipline where
  __ := placing
  params := ⊤
  entries := WellKeyed
  params_ok _ := trivial
  entries_ok hdistinct hkeys := wellKeyed_iff.2 ⟨hdistinct, hkeys⟩

instance : keying.Rewriting := ⟨fun _ _ => ⟨le_rfl, Store.size_setContent.ge⟩⟩

theorem holds_keying_of_parts {s : Store} {v : Value} (hv : v.ObeysKeys)
    (hparts : ∀ p ∈ v.parts, keying.Holds s p) : keying.Holds s v :=
  holds_of_parts (fun _ _ => trivial) hv (fun _ _ _ _ => trivial)
    (fun _ _ _ _ _ _ _ => ⟨trivial, trivial⟩) hparts

end Discipline

/-- Every map that can be come across is well keyed, if the host makes no others itself. -/
theorem Reachable.wellKeyed {logLevel : Nat} {s : Store} {vs : List Value} {id : Identity}
    {entries : List (Value × Value)} {marked : Bool} {info : Value}
    (h : Reachable ⊤ Value.ObeysKeys logLevel s vs)
    (hpresent : Present s vs (.map id entries marked info)) : WellKeyed entries := by
  obtain ⟨hgood, hheld⟩ := h.good (D := Discipline.keying) (fun _ _ => trivial) rfl rfl
    Discipline.later_placing Discipline.holds_keying_of_parts
  cases hpresent.holds hgood hheld (fun _ _ _ => trivial) (fun _ _ _ => trivial) with
  | map _ _ hentries _ => exact hentries

namespace Eval

variable {id : Identity} {entries evaluated : List (Value × Value)} {marked : Bool}
  {info k v : Value} {scope : ScopeId} {s s' s₁ : Store} {stop : Stop}

/-- How a pair of a map form stops the evaluation of the form: the form of the key stops, or else
the form of the value does, or else both have a value and that of the key is no key. -/
inductive EntryStops (scope : ScopeId) (k v : Value) (s : Store) : Stop → Store → Prop
  | key {stop : Stop} {s' : Store} :
      EndsWith (.eval k scope) s (.error stop s') → EntryStops scope k v s stop s'
  | value {key : Value} {stop : Stop} {s₁ s' : Store} :
      EndsWith (.eval k scope) s (.ok key s₁) → EndsWith (.eval v scope) s₁ (.error stop s') →
      EntryStops scope k v s stop s'
  | keyless {key value : Value} {s₁ s' : Store} :
      EndsWith (.eval k scope) s (.ok key s₁) → EndsWith (.eval v scope) s₁ (.ok value s') →
      key.Keyless → EntryStops scope k v s (.primitive (.mapKey key.typeName)) s'

theorem EntryStops.ended (h : EntryStops scope k v s stop s') :
    Ended (.error stop s' : Result Value) := by
  cases h with
  | key hk => exact hk.1
  | value _ hv => exact hv.1
  | keyless => trivial

theorem EntryStops.eventually (h : EntryStops scope k v s stop s') :
    ∀ᶠ depth in atTop,
      evalEntries (Direct.run depth) scope ((k, v) :: entries) s = .error stop s' := by
  cases h with
  | key hk =>
    filter_upwards [hk.eventually_direct] with depth hk
    exact bind_of_error hk
  | value hk hv =>
    filter_upwards [hk.eventually_direct, hv.eventually_direct] with depth hk hv
    exact (bind_of_ok hk).trans (bind_of_error hv)
  | keyless hk hv hkey =>
    filter_upwards [hk.eventually_direct, hv.eventually_direct] with depth hk hv
    refine (bind_of_ok hk).trans ((bind_of_ok hv).trans ?_)
    rw [Value.key?_eq_none_iff.2 hkey]
    rfl

/-- A map form stops at the first pair that stops, and the pairs behind it do not matter. -/
theorem endsWith_map_error_iff :
    EndsWith (.eval (.map id entries marked info) scope) s (.error stop s') ↔
      ∃ k v rest s₁, EvaluatedEntries scope entries s ((k, v) :: rest) s₁ ∧
        EntryStops scope k v s₁ stop s' := by
  constructor
  · intro h
    obtain ⟨hended, depth, hrun⟩ := (endsWith_iff_direct _ _ _).1 h
    cases depth with
    | zero =>
      obtain ⟨rfl, -⟩ := EStateM.Result.error.inj hrun
      exact hended.elim
    | succ depth =>
      obtain hentries | ⟨evaluated, s₁, -, hnew⟩ := bind_eq_error_iff.1 hrun
      · obtain ⟨k, v, rest, s₁, hevaluated, hstops⟩ := stopped_of_evalEntries hentries
        refine ⟨k, v, rest, s₁, hevaluated, ?_⟩
        obtain hk | ⟨key, s₂, hk, hv | ⟨value, hv, hkey, rfl⟩⟩ := hstops
        · exact .key (endsWith_of_direct hk hended)
        · exact .value hk (endsWith_of_direct hv hended)
        · exact .keyless hk hv (Value.key?_eq_none_iff.1 hkey)
      · cases hnew
  · rintro ⟨k, v, rest, s₁, hevaluated, hstops⟩
    refine endsWith_of_eventually hstops.ended ?_
    filter_upwards [hevaluated.eventually_stops hstops.eventually] with depth hentries
    exact bind_of_error hentries

theorem EntriesYield.inOrder (h : EntriesYield scope entries s evaluated s') :
    Key.InOrder Value.Collides (evaluated.map Prod.fst)
      ((Key.collapse Value.key? evaluated).map Prod.fst) := by
  refine (Key.inOrder_collapse evaluated).congr fun l hl k _ => ?_
  obtain ⟨entry, hentry, rfl⟩ := List.mem_map.1 hl
  exact Value.key?_eq_iff_collides (h.isSome_key? entry hentry)

end Eval

/-- Wherever an interpreter comes to, the keys of a map do not collide and none of them is a
collection. A map form, in whatever scope and store, is evaluated pair by pair, a key before its
value and each of them once. When all pairs have been evaluated to values with keys, there is a new
map of what is left of them: those with keys that collide become one entry, with the first key, in
its place, and with the last value. Otherwise the form stops where the first pair stops: with the
stop of the key or of the value, or, when both have values, with a fault if the key is none. -/
theorem maps_well_keyed :
    (∀ {logLevel : Nat} {s : Store} {vs : List Value} {id : Identity}
      {entries : List (Value × Value)} {marked : Bool} {info : Value},
      Reachable ⊤ Value.ObeysKeys logLevel s vs → Present s vs (.map id entries marked info) →
      WellKeyed entries) ∧
    ∀ {id : Identity} {entries : List (Value × Value)} {marked : Bool} {info : Value}
      {scope : ScopeId} {s : Store},
      (∀ evaluated s₁, EntriesYield scope entries s evaluated s₁ →
        ∃ left, Key.Merged Value.Collides evaluated left ∧
          Key.InOrder Value.Collides (evaluated.map Prod.fst) (left.map Prod.fst) ∧
          EndsWith (.eval (.map id entries marked info) scope) s
            (.ok (.plainMap s₁.nextIdentity left)
              { s₁ with nextIdentity := s₁.nextIdentity + 1 })) ∧
      (∀ v s', EndsWith (.eval (.map id entries marked info) scope) s (.ok v s') →
        ∃ evaluated s₁, EntriesYield scope entries s evaluated s₁) ∧
      ∀ stop s', EndsWith (.eval (.map id entries marked info) scope) s (.error stop s') ↔
        ∃ k v rest s₁, EvaluatedEntries scope entries s ((k, v) :: rest) s₁ ∧
          EntryStops scope k v s₁ stop s' := by
  refine ⟨fun h hpresent => h.wellKeyed hpresent, ?_⟩
  intro id entries marked info scope s
  refine ⟨?_, ?_, fun stop s' => endsWith_map_error_iff⟩
  · intro evaluated s₁ hevaluated
    exact ⟨_, hevaluated.merged, hevaluated.inOrder,
      endsWith_map_iff.2 ⟨_, _, hevaluated, rfl⟩⟩
  · intro v s' h
    obtain ⟨evaluated, s₁, hevaluated, -⟩ := endsWith_map_iff.1 h
    exact ⟨evaluated, s₁, hevaluated⟩

/-- A map that is made of a form whose keys have the values true and one, and a form with a list for
a key in front of a pair that cannot be evaluated. -/
theorem maps_well_keyed_true_one :
    (∃ s vs new, Reachable ⊤ Value.ObeysKeys 40 s vs ∧
      Present s vs (.plainMap new [(.bool true, .kw "b")]) ∧ WellKeyed [(.bool true, .kw "b")]) ∧
    (∃ left new s', Key.Merged Value.Collides [(.bool true, .kw "a"), (.int 1, .kw "b")] left ∧
      EndsWith (.eval (.map 0 [(.bool true, .kw "a"), (.sym "x", .kw "b")] false .nil) rootScope)
        ((Interpreter.create 40).bind rootScope "x" (.int 1)) (.ok (.plainMap new left) s')) ∧
    EndsWith (.eval (.map 0 [(.plainList 1 [], .kw "a"), (.sym "x", .kw "b")] false .nil) rootScope)
      (Interpreter.create 40) (.error (.primitive (.mapKey "list")) (Interpreter.create 40)) := by
  have hself {v : Value} {s : Store} (h : Direct.run 1 (.eval v rootScope) s = .ok v s) :
      EndsWith (.eval v rootScope) s (.ok v s) := endsWith_of_direct h trivial
  refine ⟨?_, ?_, ?_⟩
  · have hform : (Datum.map [(.bool true, .kw "a"), (.sym "x", .kw "b")]).Readable := by
      refine .map ?_ ?_ ?_ ?_
      · simpa using ⟨.bool true, .sym (by decide)⟩
      · simpa using ⟨.kw (by decide), .kw (by decide)⟩
      · simp [Datum.key?]
      · simp [Key.Distinct, Datum.key?, Key.ofBool]
    have hone {vs : List Value} : Composed Value.ObeysKeys vs (.int 1) :=
      .made (by rintro id entries marked info ⟨⟩) (List.forall_mem_nil _)
    have hbound := ((@Reachable.create ⊤ Value.ObeysKeys 40).read hform rfl).compose hone |>.bind
      rootScope "x" List.mem_cons_self
    let form : Value := .plainMap (Interpreter.create 40).nextIdentity
      [(.bool true, .kw "a"), (.sym "x", .kw "b")]
    have hvalues : ∀ v ∈ (Job.eval form rootScope).values, v ∈ [.int 1, form] :=
      List.forall_mem_singleton.2 (List.mem_cons_of_mem _ List.mem_cons_self)
    obtain ⟨s, vs, new, hreach, hmem⟩ : ∃ s vs new, Reachable ⊤ Value.ObeysKeys 40 s vs ∧
        .plainMap new [(.bool true, .kw "b")] ∈ vs :=
      ⟨_, _, _, hbound.after 2 1 hvalues trivial, List.mem_cons_self⟩
    have hpresent := Present.held (s := s) hmem
    exact ⟨s, vs, new, hreach, hpresent, maps_well_keyed.1 hreach hpresent⟩
  · have hyield : EntriesYield rootScope [(.bool true, .kw "a"), (.sym "x", .kw "b")]
        ((Interpreter.create 40).bind rootScope "x" (.int 1))
        [(.bool true, .kw "a"), (.int 1, .kw "b")]
        ((Interpreter.create 40).bind rootScope "x" (.int 1)) :=
      .cons (hself rfl) (hself rfl) rfl (.cons ⟨trivial, 1, 0, rfl⟩ (hself rfl) rfl .nil)
    obtain ⟨left, hmerged, -, hends⟩ := maps_well_keyed.2.1 _ _ hyield
    exact ⟨left, _, _, hmerged, hends⟩
  · exact (maps_well_keyed.2.2.2 _ _).2
      ⟨_, _, _, _, .none, .keyless (hself rfl) (hself rfl) .list⟩

end SmallLisp
