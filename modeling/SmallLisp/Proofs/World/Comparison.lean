import Mathlib.Tactic
import SmallLisp.Numeric.Extreme
import SmallLisp.Proofs.World.Core

/-!
# Comparisons of matching values

Equality by content and the order of values do not tell places apart, so that of matching values the
matching ones are the greatest and the least.
-/

namespace SmallLisp.World

variable {root root' : ScopeId} {W : World root root'} {v v' w w' : Value}
  {vs vs' ws ws' : List Value}

/-- Whatever it is compared with, a value is alike the same values as another one. -/
def SameAlike (W : World root root') (v w : Value) : Prop :=
  ∀ v' w', W.Matches v' w' → v.alike v' = w.alike w'

theorem allAlike_eq (h : List.Forall₂ W.SameAlike vs ws) (h' : W.AllMatch vs' ws') :
    Value.allAlike vs vs' = Value.allAlike ws ws' := by
  induction h generalizing vs' ws' with
  | nil => cases h' <;> rfl
  | cons hv _ ih =>
    cases h' with
    | nil => rfl
    | cons hv' hrest' => simp only [Value.allAlike, hv _ _ hv', ih hrest']

theorem find?_key_rel (hW : W.Agree) {entries entries' : List (Value × Value)}
    (h : W.EntriesMatch entries entries') {k l : Value} (hk : W.Matches k l) :
    Option.Rel W.EntryMatches (entries.find? fun entry => entry.1.key? == k.key?)
      (entries'.find? fun entry => entry.1.key? == l.key?) := by
  induction h with
  | nil => exact .none
  | @cons e f _ _ he _ ih =>
    have hkey : (e.1.key? == k.key?) = (f.1.key? == l.key?) := by
      rw [Bool.eq_iff_iff, beq_iff_eq, beq_iff_eq]
      exact he.1.key?_eq_iff hW hk
    rw [List.find?_cons, List.find?_cons, hkey]
    split
    · exact .some he
    · exact ih

theorem entriesAlike_eq (hW : W.Agree) {entries entries' others others' : List (Value × Value)}
    (h : List.Forall₂ (fun e f => W.Matches e.1 f.1 ∧ W.SameAlike e.2 f.2) entries entries')
    (h' : W.EntriesMatch others others') :
    Value.entriesAlike entries others = Value.entriesAlike entries' others' := by
  induction h with
  | nil => rfl
  | @cons e f _ _ he _ ih =>
    have hfound := find?_key_rel hW h' he.1
    simp only [Value.entriesAlike, ih]
    generalize others.find? (fun entry => entry.1.key? == e.1.key?) = x,
      others'.find? (fun entry => entry.1.key? == f.1.key?) = y at hfound
    cases hfound with
    | none => rfl
    | some hxy => simp only [he.2 _ _ hxy.2]

/-- Values that are not compared by content are compared as the language does, or as numbers. -/
theorem equal_or_eq (hW : W.Agree) (h : W.Matches v w) (h' : W.Matches v' w') :
    (v.equal v' || match v.quantity?, v'.quantity? with
      | some m, some n => m.eq n
      | _, _ => false) =
    (w.equal w' || match w.quantity?, w'.quantity? with
      | some m, some n => m.eq n
      | _, _ => false) := by
  rw [h.equal_eq hW h', h.quantity?_eq, h'.quantity?_eq]

/-- Equality by content cannot tell which places values refer to. -/
theorem alike_eq (hW : W.Agree) (h : W.Matches v w) : W.SameAlike v w := by
  have hmatches := h
  induction h with
  | list _ _ hlength hzip _ ih _ =>
    intro v' w' h'
    have hother := equal_or_eq hW hmatches h'
    have hitems := List.forall₂_iff_zip.2 ⟨hlength, fun hmem => ih hmem (hzip hmem)⟩
    cases h' with
    | list _ _ hlength' hzip' _ | vec _ hlength' hzip' _ =>
      simp only [Value.alike]
      exact allAlike_eq hitems (List.forall₂_iff_zip.2 ⟨hlength', hzip'⟩)
    | _ => exact hother
  | vec _ hlength hzip _ ih _ =>
    intro v' w' h'
    have hother := equal_or_eq hW hmatches h'
    have hitems := List.forall₂_iff_zip.2 ⟨hlength, fun hmem => ih hmem (hzip hmem)⟩
    cases h' with
    | list _ _ hlength' hzip' _ | vec _ hlength' hzip' _ =>
      simp only [Value.alike]
      exact allAlike_eq hitems (List.forall₂_iff_zip.2 ⟨hlength', hzip'⟩)
    | _ => exact hother
  | map _ _ hlength hkeys hvalues _ _ ih _ =>
    intro v' w' h'
    have hother := equal_or_eq hW hmatches h'
    cases h' with
    | map _ _ hlength' hkeys' hvalues' _ =>
      simp only [Value.alike, hlength, hlength']
      rw [entriesAlike_eq hW
        (List.forall₂_iff_zip.2 ⟨hlength, fun hmem => ⟨hkeys hmem, ih hmem (hvalues hmem)⟩⟩)
        (List.forall₂_iff_zip.2 ⟨hlength', fun hmem => ⟨hkeys' hmem, hvalues' hmem⟩⟩)]
    | _ => exact hother
  | pair _ hfirst hsecond ihfirst ihsecond =>
    intro v' w' h'
    have hother := equal_or_eq hW hmatches h'
    cases h' with
    | pair _ hfirst' hsecond' =>
      simp only [Value.alike, ihfirst hfirst _ _ hfirst',
        ihsecond hsecond _ _ hsecond']
    | _ => exact hother
  | _ => exact fun _ _ h' => equal_or_eq hW hmatches h'

theorem unordered_eq (op : Comparison) (turned : Bool) (h : W.Matches v w)
    (h' : W.Matches v' w') : op.unordered turned v v' = op.unordered turned w w' := by
  simp only [Comparison.unordered, h.typeName_eq, h'.typeName_eq]

theorem turns_eq (h : W.Matches v w) (h' : W.Matches v' w') :
    Comparison.turns v v' = Comparison.turns w w' := by
  cases h with
  | list marked =>
    cases h' with
    | list marked' => cases marked <;> cases marked' <;> rfl
    | vec => cases marked <;> rfl
    | _ => cases marked <;> rfl
  | _ => cases h' <;> rfl

def SameOrder (W : World root root') (op : Comparison) (v w : Value) : Prop :=
  ∀ (turned : Bool) (v' w' : Value), W.Matches v' w' → op.holds turned v v' = op.holds turned w w'

theorem itemsHold_eq (hW : W.Agree) (op : Comparison) (turned : Bool)
    (h : List.Forall₂ (fun v w => W.Matches v w ∧ W.SameOrder op v w) vs ws)
    (h' : W.AllMatch vs' ws') :
    op.itemsHold turned vs vs' = op.itemsHold turned ws ws' := by
  induction h generalizing vs' ws' with
  | nil => cases h' <;> rfl
  | cons hv _ ih =>
    cases h' with
    | nil => rfl
    | cons hv' hrest' => simp only [Comparison.itemsHold, alike_eq hW hv.1 _ _ hv', hv.2 _ _ _ hv',
      ih hrest']

theorem quantity_order_eq (op : Comparison) (turned : Bool) (h : W.Matches v w)
    (h' : W.Matches v' w') :
    (match v.quantity?, v'.quantity? with
      | some m, some n => .ok (op.onNumbers m n)
      | _, _ => .error (op.unordered turned v v') : Except HostFault Bool) =
    match w.quantity?, w'.quantity? with
      | some m, some n => .ok (op.onNumbers m n)
      | _, _ => .error (op.unordered turned w w') := by
  rw [h.quantity?_eq, h'.quantity?_eq, unordered_eq op turned h h']

theorem holds_eq (hW : W.Agree) (op : Comparison) (h : W.Matches v w) :
    W.SameOrder op v w := by
  have hmatches := h
  induction h with
  | @list _ _ items items' _ _ _ _ hlength hzip _ ih _ =>
    intro turned v' w' h'
    have hother := quantity_order_eq op turned hmatches h'
    have hturns := turns_eq hmatches h'
    have hturns' := turns_eq h' hmatches
    have hitems : List.Forall₂ (fun v w => W.Matches v w ∧ W.SameOrder op v w) items items' :=
      List.forall₂_iff_zip.2 ⟨hlength, fun hmem => ⟨hzip hmem, ih hmem (hzip hmem)⟩⟩
    cases h' with
    | list _ _ hlength' hzip' _ | vec _ hlength' hzip' _ =>
      simp only [Comparison.holds, hturns, hturns']
      exact itemsHold_eq hW op _ hitems (List.forall₂_iff_zip.2 ⟨hlength', hzip'⟩)
    | _ => exact hother
  | @vec _ _ items items' _ _ _ hlength hzip _ ih _ =>
    intro turned v' w' h'
    have hother := quantity_order_eq op turned hmatches h'
    have hturns := turns_eq hmatches h'
    have hturns' := turns_eq h' hmatches
    have hitems : List.Forall₂ (fun v w => W.Matches v w ∧ W.SameOrder op v w) items items' :=
      List.forall₂_iff_zip.2 ⟨hlength, fun hmem => ⟨hzip hmem, ih hmem (hzip hmem)⟩⟩
    cases h' with
    | list _ _ hlength' hzip' _ | vec _ hlength' hzip' _ =>
      simp only [Comparison.holds, hturns, hturns']
      exact itemsHold_eq hW op _ hitems (List.forall₂_iff_zip.2 ⟨hlength', hzip'⟩)
    | _ => exact hother
  | pair _ hfirst hsecond ihfirst ihsecond =>
    intro turned v' w' h'
    have hother := quantity_order_eq op turned hmatches h'
    cases h' with
    | pair _ hfirst' hsecond' =>
      simp only [Comparison.holds, alike_eq hW hfirst _ _ hfirst',
        alike_eq hW hsecond _ _ hsecond', ihfirst hfirst _ _ _ hfirst',
        ihsecond hsecond _ _ _ hsecond']
    | _ => exact hother
  | str text =>
    intro turned v' w' h'
    have hother := quantity_order_eq op turned hmatches h'
    cases h' with
    | str text' => rfl
    | _ => exact hother
  | _ => exact fun turned _ _ h' => quantity_order_eq op turned hmatches h'

end SmallLisp.World
