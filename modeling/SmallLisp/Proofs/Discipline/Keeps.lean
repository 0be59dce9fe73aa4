import Mathlib.Tactic
import SmallLisp.Proofs.Discipline.Store
import SmallLisp.Proofs.Value.RoundTrip

/-!
# Computations that keep a discipline

The rules for sequences, faults that are caught and limits that become faults, and the computations
on values and scopes that all evaluation is made of.
-/

namespace SmallLisp

namespace Discipline

open Eval

variable {D : Discipline} {s : Store} {α β : Type}

section

variable {x : Eval α} {f : α → Eval β} {pre : Store → α → Prop} {post : Store → β → Prop}

theorem keeps_pure {a : α} (h : pre s a) : D.Keeps s (pure a) pre := fun hs => ⟨hs, D.refl s, h⟩

theorem keeps_throw {stop : Stop} (h : D.StopHolds s stop) : D.Keeps s (throw stop) pre :=
  fun hs => ⟨hs, D.refl s, h⟩

theorem Keeps.bind (hx : D.Keeps s x pre)
    (hf : ∀ a s₁, D.later s s₁ → pre s₁ a → D.Keeps s₁ (f a) post) :
    D.Keeps s (x >>= f) post := by
  intro hs
  have hx := hx hs
  simp only [Bind.bind, EStateM.bind]
  cases hrun : x s with
  | ok a s₁ =>
    rw [hrun] at hx
    obtain ⟨hgood, hlater, hpre⟩ := hx
    have hf := hf a s₁ hlater hpre hgood
    dsimp only
    cases hrest : f a s₁ with
    | ok b s₂ =>
      rw [hrest] at hf
      exact ⟨hf.1, D.trans hlater hf.2.1, hf.2.2⟩
    | error stop s₂ =>
      rw [hrest] at hf
      exact ⟨hf.1, D.trans hlater hf.2.1, hf.2.2⟩
  | error stop s₁ =>
    rw [hrun] at hx
    exact hx

theorem Keeps.mono {post : Store → α → Prop} (hx : D.Keeps s x pre)
    (h : ∀ a s₁, D.later s s₁ → pre s₁ a → post s₁ a) : D.Keeps s x post := by
  intro hs
  have hx := hx hs
  cases hrun : x s with
  | ok a s₁ =>
    rw [hrun] at hx
    exact ⟨hx.1, hx.2.1, h a s₁ hx.2.1 hx.2.2⟩
  | error stop s₁ =>
    rw [hrun] at hx
    exact hx

theorem keeps_of_good (h : D.Good s → D.Keeps s x pre) : D.Keeps s x pre := fun hs => h hs hs

theorem keeps_get {f : Store → Eval β} (h : D.Keeps s (f s) post) : D.Keeps s (get >>= f) post := h

theorem keeps_modify {g : Store → Store} (hgood : D.Good s → D.Good (g s))
    (hlater : D.later s (g s)) : D.Keeps s (modify g) fun _ _ => True :=
  fun hs => ⟨hgood hs, hlater, trivial⟩

theorem Keeps.discard (hx : D.Keeps s x pre) : D.Keeps s (discard x) fun _ _ => True :=
  hx.bind fun _ _ _ _ => keeps_pure trivial

def Caught (D : Discipline) (post : Store → α → Prop) (s : Store) : Except Fault α → Prop
  | .ok a => post s a
  | .error cause => D.StopHolds s (.fault cause)

theorem Keeps.attempt (hx : D.Keeps s x pre) : D.Keeps s (attempt x) (Caught D pre) := by
  intro hs
  have hx := hx hs
  unfold Eval.attempt
  cases hrun : x s with
  | ok a s₁ =>
    rw [hrun] at hx
    exact hx
  | error stop s₁ =>
    rw [hrun] at hx
    cases stop <;> exact hx

theorem Keeps.inside (function : String) (hx : D.Keeps s x pre) :
    D.Keeps s (inside function x) pre := by
  intro hs
  have hx := hx hs
  unfold Eval.inside
  cases hrun : x s with
  | ok a s₁ =>
    rw [hrun] at hx
    exact hx
  | error stop s₁ =>
    rw [hrun] at hx
    cases stop <;> exact hx

/-- Computations for the items of a list, one after the other. The items are judged in the store
in which their turn comes. -/
theorem keeps_mapM {γ : Type} (fits : Store → γ → Prop) {items : List γ} {f : γ → Eval β}
    (hlater : ∀ c s s', D.later s s' → fits s c → fits s' c)
    (hpost : ∀ b s s', D.later s s' → post s b → post s' b)
    (hf : ∀ c s, fits s c → D.Keeps s (f c) post) (h : ∀ c ∈ items, fits s c) :
    D.Keeps s (items.mapM f) fun s' bs => ∀ b ∈ bs, post s' b := by
  induction items generalizing s with
  | nil => exact keeps_pure (by simp)
  | cons item items ih =>
    rw [List.forall_mem_cons] at h
    rw [List.mapM_cons]
    apply (hf item s h.1).bind
    intro b s₁ hs₁ hb
    apply (ih fun c hc => hlater c s s₁ hs₁ (h.2 c hc)).bind
    intro bs s₂ hs₂ hbs
    exact keeps_pure (List.forall_mem_cons.2 ⟨hpost b s₁ s₂ hs₂ hb, hbs⟩)

end

theorem keeps_fresh : D.Keeps s fresh fun _ _ => True := fun hs =>
  ⟨hs.congr (D.identity s _) rfl rfl, D.identity s _, trivial⟩

theorem keeps_newList {items : List Value} (h : D.AllHold s items) :
    D.Keeps s (newList items) D.Holds :=
  keeps_fresh.bind fun _ _ hlater _ => keeps_pure (.list (h.later hlater) .nil)

theorem keeps_newVec {items : List Value} (h : D.AllHold s items) :
    D.Keeps s (newVec items) D.Holds :=
  keeps_fresh.bind fun _ _ hlater _ => keeps_pure (.vec (h.later hlater) .nil)

/-- Pairs from which a map can be made. -/
def PairsHold (D : Discipline) (s : Store) (pairs : List (Value × Value)) : Prop :=
  ∀ pair ∈ pairs, (D.Holds s pair.1 ∧ pair.1.key?.isSome) ∧ D.Holds s pair.2

theorem PairsHold.later {s' : Store} {pairs : List (Value × Value)} (h : PairsHold D s pairs)
    (hlater : D.later s s') : PairsHold D s' pairs := fun pair hpair =>
  ⟨⟨(h pair hpair).1.1.later hlater, (h pair hpair).1.2⟩, (h pair hpair).2.later hlater⟩

theorem keeps_newMap {pairs : List (Value × Value)} (h : PairsHold D s pairs) :
    D.Keeps s (newMap pairs) D.Holds := by
  refine keeps_fresh.bind fun _ s₁ hlater _ => keeps_pure ?_
  have hentries : PairsHold D s₁ (Key.collapse Value.key? pairs) :=
    Key.forall_collapse (P := fun k => D.Holds s₁ k ∧ k.key?.isSome) (h.later hlater)
  refine .map (fun e he => (hentries e he).1.1) (fun e he => (hentries e he).2) ?_ .nil
  exact D.entries_ok (Key.distinct_collapse pairs) fun e he => (hentries e he).1.2

theorem keeps_ofNumber_number (n : Number) :
    D.Keeps s (ofNumber n) fun s' v => D.Holds s' v ∧ v.number?.isSome := by
  cases n with
  | int n => exact keeps_pure ⟨.int n, rfl⟩
  | float x => exact keeps_pure ⟨.float x, rfl⟩
  | nan => exact keeps_fresh.bind fun id _ _ _ => keeps_pure ⟨.nan id, rfl⟩

theorem keeps_ofNumber (n : Number) : D.Keeps s (ofNumber n) D.Holds :=
  (keeps_ofNumber_number n).mono fun _ _ _ hv => hv.1

theorem key?_toValue (d : Datum) (next : Identity) : (d.toValue.run next).1.key? = d.key? := by
  cases d <;> rfl

theorem keys_toValueEntries (entries : List (Datum × Datum)) (next : Identity) :
    ((Datum.toValueEntries entries).run next).1.map (fun e => e.1.key?) =
      entries.map fun e => e.1.key? := by
  induction entries generalizing next with
  | nil => rfl
  | cons entry rest ih =>
    obtain ⟨k, d⟩ := entry
    simp only [Datum.toValueEntries, Datum.run_bind, Datum.run_pure, List.map_cons]
    rw [← key?_toValue k next]
    exact congrArg _ (ih _)

mutual

theorem holds_toValue (s : Store) : (d : Datum) → d.Readable → (next : Identity) →
    D.Holds s (d.toValue.run next).1
  | .nil, _, _ => .nil
  | .bool b, _, _ => .bool b
  | .int n, _, _ => .int n
  | .float x, _, _ => .float x
  | .nan, _, _ => .nan _
  | .str text, _, _ => .str text
  | .sym name, _, _ => .sym name
  | .kw name, _, _ => .kw name
  | .list items, .list h, next => .list (allHold_toValues s items h next) .nil
  | .vec items, .vec h, next => .vec (allHold_toValues s items h next) .nil
  | .map entries, .map hkeys hvalues hsome hdistinct, next => by
    have hentries := holds_toValueEntries s entries
      (fun e he => ⟨hkeys e he, hvalues e he⟩) next
    have hmap := keys_toValueEntries entries next
    refine .map (fun e he => (hentries e he).1) (fun e he => (hentries e he).2) ?_ .nil
    refine D.entries_ok (hmap ▸ hdistinct : (List.map _ _).Nodup) fun e he => ?_
    have hkey : e.1.key? ∈ entries.map fun e => e.1.key? := hmap ▸ List.mem_map_of_mem he
    obtain ⟨entry, hentry, heq⟩ := List.mem_map.1 hkey
    exact heq ▸ hsome entry hentry

theorem allHold_toValues (s : Store) : (ds : List Datum) → (∀ d ∈ ds, d.Readable) →
    (next : Identity) → D.AllHold s ((Datum.toValues ds).run next).1
  | [], _, _ => List.forall_mem_nil _
  | d :: rest, h, next => by
    rw [List.forall_mem_cons] at h
    simp only [Datum.toValues, Datum.run_bind, Datum.run_pure]
    exact List.forall_mem_cons.2
      ⟨holds_toValue s d h.1 next, allHold_toValues s rest h.2 _⟩

theorem holds_toValueEntries (s : Store) : (entries : List (Datum × Datum)) →
    (∀ e ∈ entries, e.1.Readable ∧ e.2.Readable) → (next : Identity) →
    ∀ e ∈ ((Datum.toValueEntries entries).run next).1, D.Holds s e.1 ∧ D.Holds s e.2
  | [], _, _ => List.forall_mem_nil _
  | (k, d) :: rest, h, next => by
    rw [List.forall_mem_cons] at h
    simp only [Datum.toValueEntries, Datum.run_bind, Datum.run_pure]
    exact List.forall_mem_cons.2 ⟨⟨holds_toValue s k h.1.1 next, holds_toValue s d h.1.2 _⟩,
      holds_toValueEntries s rest h.2 _⟩

end

theorem keeps_ofDatum {d : Datum} (h : d.Readable) : D.Keeps s (Eval.ofDatum d) D.Holds := by
  intro hs
  have hlater := D.identity s (d.toValue.run s.nextIdentity).2
  exact ⟨hs.congr hlater rfl rfl, hlater, holds_toValue _ d h s.nextIdentity⟩

theorem keeps_readForm (text : String) : D.Keeps s (Eval.readForm text) D.Holds := by
  unfold Eval.readForm
  cases hread : SmallLisp.readForm text with
  | ok d => exact keeps_ofDatum (Datum.readable_of_readForm hread)
  | error fault =>
    apply keeps_throw
    cases fault <;> trivial

end Discipline

end SmallLisp
