import Mathlib.Data.Fintype.Order
import Mathlib.Logic.Relation
import Mathlib.Tactic
import SmallLisp.Proofs.Value.PrintDepth
import SmallLisp.Proofs.Value.TextFault
import SmallLisp.Proofs.World.Reach

/-!
# Atoms inside themselves

Printing goes from a collection to its entries and from an atom to its content, and it looks into no
function. It comes to an end if no atom that it comes to leads back to itself in the same way.
Otherwise it exhausts the stack, however deep that is.
-/

namespace SmallLisp

open Relation

namespace Value

/-- The values that printing a value goes on to: the entries of a collection. -/
def printed : Value → List Value
  | list _ items _ _ => items
  | vec _ items _ => items
  | map _ entries _ _ => entries.map (·.1) ++ entries.map (·.2)
  | _ => []

theorem mem_parts_of_mem_printed {v w : Value} (h : w ∈ v.printed) : w ∈ v.parts := by
  cases v with
  | list | vec | map => exact List.mem_cons_of_mem _ h
  | _ => cases h

/-- A pair, if the value is one, has two numbers in it. -/
def PairsNumbers (v : Value) : Prop :=
  ∀ id first second, v = .pair id first second → first.number?.isSome ∧ second.number?.isSome

variable {content : Address → Except Stop String} {mode : PrintMode} {v w : Value} {text : String}

theorem ok_of_bind {α β : Type} {x : Except Stop α} {f : α → Except Stop β} {b : β}
    (h : x >>= f = .ok b) : ∃ a, x = .ok a ∧ f a = .ok b := by
  cases x with
  | ok a => exact ⟨a, rfl, h⟩
  | error stop => cases h

theorem ok_of_printAll {vs : List Value} {texts : List String}
    (h : printAll content mode vs = .ok texts) (hw : w ∈ vs) :
    ∃ text, w.printWith content mode = .ok text := by
  induction vs generalizing texts with
  | nil => cases hw
  | cons v rest ih =>
    obtain ⟨text, hv, h⟩ := ok_of_bind h
    obtain ⟨others, hrest, -⟩ := ok_of_bind h
    rcases List.mem_cons.1 hw with rfl | hw
    · exact ⟨text, hv⟩
    · exact ih hrest hw

theorem ok_of_printEntries {entries : List (Value × Value)} {texts : List String}
    (h : printEntries content mode entries = .ok texts) {e : Value × Value} (he : e ∈ entries) :
    (∃ text, e.1.printWith content mode = .ok text) ∧
      ∃ text, e.2.printWith content mode = .ok text := by
  induction entries generalizing texts with
  | nil => cases he
  | cons entry rest ih =>
    obtain ⟨k, v⟩ := entry
    obtain ⟨key, hk, h⟩ := ok_of_bind h
    obtain ⟨text, hv, h⟩ := ok_of_bind h
    obtain ⟨others, hrest, -⟩ := ok_of_bind h
    rcases List.mem_cons.1 he with rfl | he
    · exact ⟨⟨key, hk⟩, text, hv⟩
    · exact ih hrest he

/-- A collection has no text unless its entries have one. -/
theorem ok_of_mem_printed (h : v.printWith content mode = .ok text) (hw : w ∈ v.printed) :
    ∃ text, w.printWith content mode = .ok text := by
  cases v with
  | list id items marked info =>
    obtain ⟨texts, hitems, -⟩ := ok_of_bind h
    exact ok_of_printAll hitems hw
  | vec id items info =>
    obtain ⟨texts, hitems, -⟩ := ok_of_bind h
    exact ok_of_printAll hitems hw
  | map id entries marked info =>
    obtain ⟨texts, hentries, -⟩ := ok_of_bind h
    rcases List.mem_append.1 hw with hw | hw
    · obtain ⟨e, he, rfl⟩ := List.mem_map.1 hw
      exact (ok_of_printEntries hentries he).1
    · obtain ⟨e, he, rfl⟩ := List.mem_map.1 hw
      exact (ok_of_printEntries hentries he).2
  | _ => cases hw

theorem stopsWith_printAll_of_forall {reason : Stop → Prop} {vs : List Value}
    (h : ∀ w ∈ vs, StopsWith reason (w.printWith content mode)) :
    StopsWith reason (printAll content mode vs) := by
  induction vs with
  | nil => exact .ok _
  | cons v rest ih =>
    obtain ⟨hv, hrest⟩ := List.forall_mem_cons.1 h
    exact hv.bind fun text => (ih hrest).bind fun texts => .ok _

theorem stopsWith_printEntries_of_forall {reason : Stop → Prop} {entries : List (Value × Value)}
    (hkeys : ∀ e ∈ entries, StopsWith reason (e.1.printWith content mode))
    (hvalues : ∀ e ∈ entries, StopsWith reason (e.2.printWith content mode)) :
    StopsWith reason (printEntries content mode entries) := by
  induction entries with
  | nil => exact .ok _
  | cons entry rest ih =>
    obtain ⟨k, v⟩ := entry
    obtain ⟨hk, hkeys⟩ := List.forall_mem_cons.1 hkeys
    obtain ⟨hv, hvalues⟩ := List.forall_mem_cons.1 hvalues
    exact hk.bind fun key => hv.bind fun text => (ih hkeys hvalues).bind fun texts => .ok _

theorem stopsWith_integerText_other (n : ℤ) : StopsWith (· ≠ .stackExhausted) (integerText n) := by
  unfold integerText
  split_ifs
  · exact .ok _
  · exact .error nofun

theorem stopsWith_represent_number {content : List Identity → Address → Except Stop String}
    (h : v.number?.isSome) (opened : List Identity) :
    StopsWith (· ≠ .stackExhausted) (v.representWith content opened) := by
  cases v with
  | int n => exact stopsWith_integerText_other n
  | float x => exact .ok _
  | nan id => exact .ok _
  | _ => cases h

theorem stopsWith_printWith_of_printed (hpair : v.PairsNumbers)
    (hprinted : ∀ w ∈ v.printed, StopsWith (· ≠ .stackExhausted) (w.printWith content mode))
    (hatom : ∀ a, v = .atom a → StopsWith (· ≠ .stackExhausted) (content a)) :
    StopsWith (· ≠ .stackExhausted) (v.printWith content mode) := by
  unfold printWith
  cases v with
  | int n => exact stopsWith_integerText_other n
  | list id items marked info => exact (stopsWith_printAll_of_forall hprinted).bind fun _ => .ok _
  | vec id items info => exact (stopsWith_printAll_of_forall hprinted).bind fun _ => .ok _
  | map id entries marked info =>
    obtain ⟨hkeys, hvalues⟩ := List.forall_mem_append.1 hprinted
    have hentries := stopsWith_printEntries_of_forall
      (fun e he => hkeys e.1 (List.mem_map_of_mem he))
      (fun e he => hvalues e.2 (List.mem_map_of_mem he))
    exact hentries.bind fun _ => .ok _
  | pair id first second =>
    obtain ⟨hfirst, hsecond⟩ := hpair _ _ _ rfl
    unfold representWith
    apply (stopsWith_represent_number hfirst []).bind
    intro a
    exact (stopsWith_represent_number hsecond []).bind fun b => .ok _
  | atom a => exact (hatom a rfl).bind fun _ => .ok _
  | _ => exact .ok _

end Value

namespace Store

/-- One step of printing: from a collection to an entry or from an atom to its content. -/
inductive Steps (s : Store) : Value → Value → Prop
  | entry {v w : Value} : w ∈ v.printed → Steps s v w
  | content {a : Address} {v : Value} : s.content? a = some v → Steps s (.atom a) v

/-- No atom that can be reached from a value by the steps of printing reaches itself by them. -/
def AtomAcyclic (s : Store) (v : Value) : Prop :=
  ∀ a, ReflTransGen s.Steps v (.atom a) → ¬ TransGen s.Steps (.atom a) (.atom a)

/-- All that can be reached from a value by the steps of printing can be printed: atoms have a
content, and pairs are pairs of numbers. -/
def Grounded (s : Store) (v : Value) : Prop :=
  ∀ w, ReflTransGen s.Steps v w →
    (∀ a, w = .atom a → (s.content? a).isSome) ∧ w.PairsNumbers

variable {s : Store} {mode : PrintMode} {v w : Value} {depth : Nat}

theorem Grounded.step (h : s.Grounded v) (hw : s.Steps v w) : s.Grounded w :=
  fun u hu => h u (.head hw hu)

/-- A value has a text if its atoms are followed to a depth. -/
def Prints (s : Store) (mode : PrintMode) (depth : Nat) (v : Value) : Prop :=
  ∃ text, s.printFrom mode depth v = .ok text

theorem Prints.succ (h : s.Prints mode depth v) : s.Prints mode (depth + 1) v := by
  obtain ⟨text, h⟩ := h
  rw [printFrom_eq] at h
  have himproves := v.improves_printWith (s.improves_contentText mode depth) mode
  rw [h] at himproves
  refine ⟨text, ?_⟩
  rw [printFrom_eq]
  exact himproves.resolve_left nofun

theorem Prints.content {a : Address} (h : s.Prints mode depth (.atom a))
    (hcontent : s.content? a = some v) : ∃ less, depth = less + 1 ∧ s.Prints mode less v := by
  obtain ⟨text, h⟩ := h
  cases depth with
  | zero => cases h
  | succ less =>
    rw [printFrom_eq] at h
    obtain ⟨shown, hshown, -⟩ := Value.ok_of_bind h
    rw [s.contentText_of_some mode hcontent, ← s.printFrom_eq] at hshown
    exact ⟨less, rfl, shown, hshown⟩

theorem Prints.step (h : s.Prints mode depth v) (hw : s.Steps v w) : s.Prints mode depth w := by
  cases hw with
  | entry hw =>
    obtain ⟨text, h⟩ := h
    rw [printFrom_eq] at h
    obtain ⟨shown, hshown⟩ := Value.ok_of_mem_printed h hw
    exact ⟨shown, (s.printFrom_eq mode depth w).trans hshown⟩
  | content hcontent =>
    obtain ⟨less, rfl, hless⟩ := h.content hcontent
    exact hless.succ

theorem Prints.steps (h : s.Prints mode depth v) (hw : ReflTransGen s.Steps v w) :
    s.Prints mode depth w := by
  induction hw with
  | refl => exact h
  | tail _ hstep ih => exact ih.step hstep

/-- An atom that leads back to itself has no text, because its text would be part of a text that
takes less depth. -/
theorem not_prints_of_cycle {a : Address} (hcycle : TransGen s.Steps (.atom a) (.atom a)) :
    ¬ s.Prints mode depth (.atom a) := by
  obtain ⟨v, hfirst, hrest⟩ := TransGen.head'_iff.1 hcycle
  cases hfirst with
  | entry hw => cases hw
  | content hcontent =>
    induction depth with
    | zero =>
      intro h
      obtain ⟨less, hless, -⟩ := h.content hcontent
      cases hless
    | succ depth ih =>
      intro h
      obtain ⟨less, hless, h⟩ := h.content hcontent
      obtain rfl := Nat.succ.inj hless
      exact ih (h.steps hrest)

theorem Prints.atomAcyclic (h : s.Prints mode depth v) : s.AtomAcyclic v :=
  fun _ ha hcycle => not_prints_of_cycle hcycle (h.steps ha)

/-- There are only so many atoms, so that the steps from atom to atom end in an acyclic value. -/
theorem AtomAcyclic.wellFounded (h : s.AtomAcyclic v) (hground : s.Grounded v) :
    WellFounded fun b a : {a // ReflTransGen s.Steps v (.atom a)} =>
      TransGen s.Steps (.atom a.1) (.atom b.1) := by
  have hfinite : Finite {a // ReflTransGen s.Steps v (.atom a)} := by
    refine Set.Finite.subset (Set.finite_lt_nat s.contents.size) fun a ha => ?_
    obtain ⟨w, hw⟩ := Option.isSome_iff_exists.1 ((hground _ ha).1 a rfl)
    exact (Array.getElem?_eq_some_iff.1 hw).1
  have htrans : IsTrans {a // ReflTransGen s.Steps v (.atom a)} fun b a =>
      TransGen s.Steps (.atom a.1) (.atom b.1) := ⟨fun _ _ _ hab hbc => hbc.trans hab⟩
  have hirrefl : Std.Irrefl fun b a : {a // ReflTransGen s.Steps v (.atom a)} =>
      TransGen s.Steps (.atom a.1) (.atom b.1) := ⟨fun a => h a.1 a.2⟩
  exact Finite.wellFounded_of_trans_of_irrefl _

/-- Printing a value exhausts the stack only in an atom that the entries lead to. -/
theorem stopsWith_printWith_of_atoms {content : Address → Except Stop String}
    (hground : s.Grounded v) (hatoms : ∀ a, ReflTransGen s.Steps v (.atom a) →
      StopsWith (· ≠ .stackExhausted) (content a)) :
    StopsWith (· ≠ .stackExhausted) (v.printWith content mode) := by
  induction v using Value.parts_induction with
  | h v ih =>
    refine Value.stopsWith_printWith_of_printed (hground v .refl).2 (fun w hw => ?_) ?_
    · exact ih w (Value.mem_parts_of_mem_printed hw) (hground.step (.entry hw)) fun a ha =>
        hatoms a (.head (.entry hw) ha)
    · rintro a rfl
      exact hatoms a .refl

/-- The atoms of an acyclic value have contents that can be printed, when as many atoms are followed
as there are. -/
theorem AtomAcyclic.stopsWith_contentText (h : s.AtomAcyclic v) (hground : s.Grounded v)
    {a : Address} (ha : ReflTransGen s.Steps v (.atom a)) :
    StopsWith (· ≠ .stackExhausted) (s.contentText mode s.contents.size a) := by
  induction hatom : (⟨a, ha⟩ : {a // ReflTransGen s.Steps v (.atom a)})
    using (h.wellFounded hground).induction generalizing a with
  | h start ih =>
    subst hatom
    obtain ⟨w, hw⟩ := Option.isSome_iff_exists.1 ((hground _ ha).1 a rfl)
    have hstep : s.Steps (.atom a) w := .content hw
    rw [← contentText_eq (Nat.le_succ _), s.contentText_of_some mode hw]
    have hreach {u : Value} (hu : ReflTransGen s.Steps w u) : ReflTransGen s.Steps v u :=
      ha.trans (.head hstep hu)
    refine stopsWith_printWith_of_atoms (fun u hu => hground u (hreach hu)) fun b hb => ?_
    exact ih ⟨b, hreach hb⟩ (.head' hstep hb) (hreach hb) rfl

theorem AtomAcyclic.stopsWith_print (h : s.AtomAcyclic v) (hground : s.Grounded v) :
    StopsWith (· ≠ .stackExhausted) (s.print mode v) := by
  rw [print, printFrom_eq]
  exact stopsWith_printWith_of_atoms hground fun a ha => h.stopsWith_contentText hground ha

theorem print_ne_stackExhausted (hground : s.Grounded v) (h : s.AtomAcyclic v) (mode : PrintMode) :
    s.print mode v ≠ .error .stackExhausted :=
  fun hexhausted => h.stopsWith_print hground _ hexhausted rfl

theorem exists_text (hground : s.Grounded v) (hshort : ¬ s.HasLongInteger v) (h : s.AtomAcyclic v)
    (mode : PrintMode) : ∃ text, s.print mode v = .ok text := by
  cases hprint : s.print mode v with
  | ok text => exact ⟨text, rfl⟩
  | error stop =>
    obtain rfl := (s.stopsWith_print mode v stop hprint).eq_stackExhausted hshort
    exact absurd hprint (print_ne_stackExhausted hground h mode)

/-- Printing a value that is not acyclic exhausts the stack at every depth. -/
theorem printFrom_eq_stackExhausted (hshort : ¬ s.HasLongInteger v) (h : ¬ s.AtomAcyclic v)
    (mode : PrintMode) (depth : Nat) : s.printFrom mode depth v = .error .stackExhausted := by
  cases hprint : s.printFrom mode depth v with
  | ok text => exact absurd (Prints.atomAcyclic ⟨text, hprint⟩) h
  | error stop =>
    rw [(s.stopsWith_printFrom mode depth v stop hprint).eq_stackExhausted hshort]

end Store

end SmallLisp
