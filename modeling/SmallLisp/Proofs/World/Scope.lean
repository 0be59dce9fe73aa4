import Mathlib.Tactic
import SmallLisp.Proofs.World.Store

/-!
# New values, bindings and scopes in a world

New values that are made of matching values match. From paired scopes a symbol has matching values,
however long the chains of scopes are on either side, and the new scopes of a call are paired.
-/

namespace SmallLisp.World

open Eval

variable {root root' : ScopeId} {W W' : World root root'} {v w : Value} {vs ws : List Value}

theorem alike_newList (h : W.AllMatch vs ws) : W.Alike (newList vs) (newList ws) Matches :=
  alike_fresh.bind fun _ _ _ hlater hij => alike_pure (.ofList hij (h.later hlater) false .nil)

theorem alike_newVec (h : W.AllMatch vs ws) : W.Alike (newVec vs) (newVec ws) Matches :=
  alike_fresh.bind fun _ _ _ hlater hij => alike_pure (.ofVec hij (h.later hlater) .nil)

theorem alike_newMap {pairs pairs' : List (Value × Value)} (h : W.EntriesMatch pairs pairs') :
    W.Alike (newMap pairs) (newMap pairs') Matches := by
  refine alike_fresh.bind fun i j W₁ hlater hij => alike_of_agree fun hW => alike_pure ?_
  exact .ofMap hij ((h.later hlater).collapse hW) false .nil

theorem alike_ofNumber (n : Number) : W.Alike (ofNumber n) (ofNumber n) Matches := by
  cases n with
  | int n => exact alike_pure (.int n)
  | float x => exact alike_pure (.float x)
  | nan => exact alike_fresh.bind fun _ _ _ _ hij => alike_pure (.nan hij)

/-- Identities taken one after the other, as a computation on the store. -/
def withIdentities {α : Type} (x : StateM Identity α) : Eval α := fun s =>
  let (a, next) := x.run s.nextIdentity
  .ok a { s with nextIdentity := next }

theorem withIdentities_map (entries : List (Datum × Datum)) :
    withIdentities (Datum.toValue (.map entries)) = (do
      let values ← withIdentities (Datum.toValueEntries entries)
      return .plainMap (← fresh) values) := rfl

theorem withIdentities_entry (k d : Datum) (rest : List (Datum × Datum)) :
    withIdentities (Datum.toValueEntries ((k, d) :: rest)) = (do
      let key ← withIdentities k.toValue
      let value ← withIdentities d.toValue
      let entries ← withIdentities (Datum.toValueEntries rest)
      return (key, value) :: entries) := rfl

mutual

theorem alike_toValue {W : World root root'} :
    (d : Datum) → W.Alike (withIdentities d.toValue) (withIdentities d.toValue) Matches
  | .nil => alike_pure .nil
  | .bool b => alike_pure (.bool b)
  | .int n => alike_pure (.int n)
  | .float x => alike_pure (.float x)
  | .nan => alike_of_agree fun hW => alike_pure (.nan hW.nan)
  | .str text => alike_pure (.str text)
  | .sym name => alike_pure (.sym name)
  | .kw name => alike_pure (.kw name)
  | .list items => (alike_toValues items).bind fun _ _ _ _ hvalues => alike_newList hvalues
  | .vec items => (alike_toValues items).bind fun _ _ _ _ hvalues => alike_newVec hvalues
  | .map entries => by
    rw [withIdentities_map]
    apply (alike_toValueEntries entries).bind
    intro values values' W₁ _ hvalues
    apply alike_fresh.bind
    intro i j W₂ hW₂ hij
    exact alike_pure (.ofMap hij (hvalues.later hW₂) false .nil)

theorem alike_toValues {W : World root root'} : (ds : List Datum) →
    W.Alike (withIdentities (Datum.toValues ds)) (withIdentities (Datum.toValues ds)) AllMatch
  | [] => alike_pure .nil
  | d :: rest => (alike_toValue d).bind fun _ _ _ _ hv =>
    (alike_toValues rest).bind fun _ _ _ hlater hrest =>
      alike_pure (.cons (hv.later hlater) hrest)

theorem alike_toValueEntries {W : World root root'} : (entries : List (Datum × Datum)) →
    W.Alike (withIdentities (Datum.toValueEntries entries))
      (withIdentities (Datum.toValueEntries entries)) EntriesMatch
  | [] => alike_pure .nil
  | (k, d) :: rest => by
    rw [withIdentities_entry]
    apply (alike_toValue k).bind
    intro key key' W₁ _ hkey
    apply (alike_toValue d).bind
    intro value value' W₂ hW₂ hvalue
    apply (alike_toValueEntries rest).bind
    intro values values' W₃ hW₃ hvalues
    exact alike_pure (.cons ⟨(hkey.later hW₂).later hW₃, hvalue.later hW₃⟩ hvalues)

end

theorem alike_ofDatum (d : Datum) : W.Alike (ofDatum d) (ofDatum d) Matches := alike_toValue d

theorem alike_readForm (text : String) :
    W.Alike (Eval.readForm text) (Eval.readForm text) Matches := by
  unfold Eval.readForm
  split
  · exact alike_ofDatum _
  · next fault _ => cases fault <;> exact alike_stop trivial

theorem get?_rel {b b' : Bindings}
    (h : List.Forall₂ (fun x y => x.1 = y.1 ∧ W.Matches x.2 y.2) b b') (name : String) :
    Option.Rel W.Matches (b.get? name) (b'.get? name) := by
  induction h with
  | nil => exact .none
  | @cons x y _ _ hxy _ ih =>
    obtain ⟨n, x⟩ := x
    obtain ⟨n', y⟩ := y
    obtain ⟨rfl, hxy⟩ := hxy
    unfold Bindings.get?
    split_ifs
    · exact .some hxy
    · exact ih

def Found (W : World root root') (x y : ScopeId × Value) : Prop :=
  W.pairs .scope x.1 y.1 ∧ W.Matches x.2 y.2

/-- The chains of scopes may be followed to different bounds, as long as both are long enough. -/
theorem lookupFrom_rel (hW : W.Agree) (name : String) {bound bound' : Nat} {i j : ScopeId}
    (hij : W.pairs .scope i j) (hi : i < bound) (hj : j < bound') :
    Option.Rel W.Found (W.left.lookupFrom name bound i) (W.right.lookupFrom name bound' j) := by
  induction bound generalizing bound' i j with
  | zero => exact absurd hi (Nat.not_lt_zero i)
  | succ bound ih =>
    obtain ⟨bound', rfl⟩ := Nat.exists_eq_add_of_le' (Nat.one_le_of_lt hj)
    obtain ⟨a, b, ha, hb, hab⟩ := hW.place hij
    have hget := get?_rel hab.bindings name
    have houter := hab.outer
    unfold Store.lookupFrom
    rw [ha, hb]
    dsimp only
    generalize a.bindings.get? name = x, b.bindings.get? name = y at hget
    cases hget with
    | some hxy => exact .some ⟨hij, hxy⟩
    | none =>
      generalize a.outer = o, b.outer = o' at houter
      cases houter with
      | none => exact .none
      | some ho =>
        exact ih ho.1 (ho.2.1.trans_le (Nat.le_of_lt_succ hi))
          (ho.2.2.trans_le (Nat.le_of_lt_succ hj))

theorem lookup?_rel (hW : W.Agree) {i j : ScopeId} (hij : W.pairs .scope i j) (name : String) :
    Option.Rel W.Found (W.left.lookup? i name) (W.right.lookup? j name) :=
  lookupFrom_rel hW name hij (Nat.lt_succ_self i) (Nat.lt_succ_self j)

theorem alike_lookup {i j : ScopeId} (hij : W.pairs .scope i j) (name : String) :
    W.Alike (lookup i name) (lookup j name) Matches := by
  refine alike_of_agree fun hW => alike_get ?_
  have hfound := lookup?_rel hW hij name
  generalize W.left.lookup? i name = x, W.right.lookup? j name = y at hfound
  cases hfound with
  | some hxy => exact alike_pure hxy.2
  | none => exact alike_stop trivial

theorem chainFrom_rel (hW : W.Agree) {bound bound' : Nat} {i j : ScopeId}
    (hij : W.pairs .scope i j) (hi : i < bound) (hj : j < bound') :
    List.Forall₂ (W.pairs .scope) (W.left.chainFrom bound i) (W.right.chainFrom bound' j) := by
  induction bound generalizing bound' i j with
  | zero => exact absurd hi (Nat.not_lt_zero i)
  | succ bound ih =>
    obtain ⟨bound', rfl⟩ := Nat.exists_eq_add_of_le' (Nat.one_le_of_lt hj)
    obtain ⟨a, b, ha, hb, hab⟩ := hW.place hij
    have houter := hab.outer
    unfold Store.chainFrom
    rw [ha, hb]
    dsimp only
    refine .cons hij ?_
    generalize a.outer = o, b.outer = o' at houter
    cases houter with
    | none => exact .nil
    | some ho =>
      exact ih ho.1 (ho.2.1.trans_le (Nat.le_of_lt_succ hi))
        (ho.2.2.trans_le (Nat.le_of_lt_succ hj))

theorem chain_rel (hW : W.Agree) {i j : ScopeId} (hij : W.pairs .scope i j) :
    List.Forall₂ (W.pairs .scope) (W.left.chain i) (W.right.chain j) :=
  chainFrom_rel hW hij (Nat.lt_succ_self i) (Nat.lt_succ_self j)

theorem chainText_eq (hW : W.Agree) {ids ids' : List ScopeId}
    (h : List.Forall₂ (W.pairs .scope) ids ids') :
    W.left.chainText ids = W.right.chainText ids' := by
  have hnames : ids.map W.left.scopeName = ids'.map W.right.scopeName := by
    induction h with
    | nil => rfl
    | cons hij _ ih =>
      obtain ⟨a, b, ha, hb, hab⟩ := hW.place hij
      rw [List.map_cons, List.map_cons, ih, Store.scopeName, Store.scopeName, ha, hb]
      exact congrArg (· :: _) hab.name
  rw [Store.chainText, Store.chainText, hnames]

theorem isSome_own?_eq (hW : W.Agree) {i j : ScopeId} (hij : W.pairs .scope i j)
    (name : String) : (W.left.own? i name).isSome = (W.right.own? j name).isSome := by
  obtain ⟨a, b, ha, hb, hab⟩ := hW.place hij
  have hget := get?_rel hab.bindings name
  rw [Store.own?, Store.own?, ha, hb, Option.bind_some, Option.bind_some]
  generalize a.bindings.get? name = x, b.bindings.get? name = y at hget
  cases hget <;> rfl

theorem ownersText_eq (hW : W.Agree) {i j : ScopeId} (hij : W.pairs .scope i j)
    (name : String) :
    SpecialForm.ownersText W.left i name = SpecialForm.ownersText W.right j name := by
  have howners : List.Forall₂ (W.pairs .scope)
      ((W.left.chain i).filter fun id => (W.left.own? id name).isSome)
      ((W.right.chain j).filter fun id => (W.right.own? id name).isSome) := by
    have hchain := chain_rel hW hij
    generalize W.left.chain i = ids, W.right.chain j = ids' at hchain
    induction hchain with
    | nil => exact .nil
    | cons hij _ ih =>
      rw [List.filter_cons, List.filter_cons, isSome_own?_eq hW hij name]
      split_ifs
      · exact .cons hij ih
      · exact ih
  simp only [SpecialForm.ownersText, chainText_eq hW howners]

theorem alike_bindValue {i j : ScopeId} (hij : W.pairs .scope i j) {target target' : Value}
    (htarget : W.Matches target target') (hvw : W.Matches v w) :
    W.Alike (bindValue i target v) (bindValue j target' w) Same := by
  have hmatches := htarget
  cases htarget with
  | sym name => exact alike_bind hij name hvw
  | _ => exact alike_refusal (fun shown => .arity (.nonSymbol shown)) (fun _ => trivial) hmatches

theorem isRestMark_eq (h : W.Matches v w) : isRestMark v = isRestMark w := by
  cases h <;> rfl

theorem requiredCount_eq (h : W.AllMatch vs ws) : requiredCount vs = requiredCount ws := by
  have htaken : ((vs.takeWhile fun p => !isRestMark p).length =
      (ws.takeWhile fun p => !isRestMark p).length) := by
    induction h with
    | nil => rfl
    | cons hv _ ih =>
      rw [List.takeWhile_cons, List.takeWhile_cons, isRestMark_eq hv]
      split_ifs
      · exact congrArg Nat.succ ih
      · rfl
  exact htaken

theorem alike_bindRest {i j : ScopeId} (required got : Nat) {params params' args args' : List Value}
    (hij : W.pairs .scope i j) (hparams : W.AllMatch params params')
    (hargs : W.AllMatch args args') :
    W.Alike (bindRest i required got params args) (bindRest j required got params' args') Same := by
  induction params generalizing W params' args args' with
  | nil =>
    cases hparams
    exact alike_pure rfl
  | cons param params ih =>
    cases hparams with
    | cons hparam hparams =>
      unfold bindRest
      rw [isRestMark_eq hparam]
      split_ifs
      · cases hparams with
        | nil => exact alike_stop trivial
        | cons hrest _ =>
          apply (alike_newList hargs).bind
          intro items items' W₁ hW₁ hitems
          exact alike_bindValue (hW₁.mono hij) (hrest.later hW₁) hitems
      · cases hargs with
        | nil => exact alike_stop trivial
        | cons harg hargs =>
          apply (alike_bindValue hij hparam harg).bind
          intro _ _ W₁ hW₁ _
          exact ih (hW₁.mono hij) (hparams.imp fun _ _ h => h.later hW₁)
            (hargs.imp fun _ _ h => h.later hW₁)

/-- The scopes that are made for parameters are paired. -/
theorem alike_enter {outer outer' : ScopeId} (houter : W.pairs .scope outer outer')
    (name : String) {params params' args args' : List Value}
    (hparams : W.AllMatch params params') (hargs : W.AllMatch args args') :
    W.Alike (enter (some outer) name params args) (enter (some outer') name params' args')
      fun W' i j => W'.pairs .scope i j := by
  apply (alike_addScope houter name).bind
  intro i j W₁ hW₁ hij
  unfold bindParameters
  rw [requiredCount_eq hparams, hargs.length_eq]
  apply (alike_bindRest _ _ hij (hparams.later hW₁) (hargs.later hW₁)).bind
  intro _ _ W₂ hW₂ _
  exact alike_pure (hW₂.mono hij)

end SmallLisp.World
