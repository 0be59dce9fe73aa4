import Mathlib.Data.Finset.Card
import Mathlib.Order.Monotone.Basic
import Mathlib.Tactic
import SmallLisp.Value.Printer

/-!
# The depth of printing

Printing follows atoms into their contents, and as many atoms as there are in the store are followed
into one another. Nothing changes when more are followed: a value that has no text by then has an
atom inside itself.
-/

namespace SmallLisp

def isExhausted {α : Type} : Except Stop α → Bool
  | .error .stackExhausted => true
  | _ => false

theorem isExhausted_iff {α : Type} {x : Except Stop α} :
    isExhausted x = true ↔ x = .error .stackExhausted := by
  unfold isExhausted
  split
  · simp
  · next h => exact iff_of_false Bool.false_ne_true h

/-- A computation of a text is at least as good as another one: they are the same, unless the other
one exhausts the stack. -/
def Improves {α : Type} (x y : Except Stop α) : Prop := x = .error .stackExhausted ∨ y = x

namespace Improves

variable {α β : Type}

theorem refl (x : Except Stop α) : Improves x x := .inr rfl

theorem bind {x y : Except Stop α} {f g : α → Except Stop β} (hxy : Improves x y)
    (hfg : ∀ a, Improves (f a) (g a)) : Improves (x >>= f) (y >>= g) := by
  rcases hxy with rfl | rfl
  · exact .inl rfl
  · cases y with
    | ok a => exact hfg a
    | error stop => exact .inr rfl

end Improves

namespace Value

variable {content content' : Address → Except Stop String}

mutual

/-- The text of a value is as good as the texts of the contents of its atoms. -/
theorem improves_printWith (h : ∀ a, Improves (content a) (content' a)) (mode : PrintMode) :
    (v : Value) → Improves (v.printWith content mode) (v.printWith content' mode)
  | nil | bool _ | int _ | float _ | nan _ | str _ | sym _ | kw _ | pair .. | closure ..
  | builtin .. => .refl _
  | list _ items _ _ => (improves_printAll h mode items).bind fun _ => .refl _
  | vec _ items _ => (improves_printAll h mode items).bind fun _ => .refl _
  | map _ entries _ _ => (improves_printEntries h mode entries).bind fun _ => .refl _
  | atom a => (h a).bind fun _ => .refl _

theorem improves_printAll (h : ∀ a, Improves (content a) (content' a)) (mode : PrintMode) :
    (vs : List Value) → Improves (printAll content mode vs) (printAll content' mode vs)
  | [] => .refl _
  | v :: rest => (improves_printWith h mode v).bind fun _ =>
    (improves_printAll h mode rest).bind fun _ => .refl _

theorem improves_printEntries (h : ∀ a, Improves (content a) (content' a)) (mode : PrintMode) :
    (entries : List (Value × Value)) →
      Improves (printEntries content mode entries) (printEntries content' mode entries)
  | [] => .refl _
  | (k, v) :: rest => (improves_printWith h mode k).bind fun _ =>
    (improves_printWith h mode v).bind fun _ =>
      (improves_printEntries h mode rest).bind fun _ => .refl _

end

end Value

namespace Store

variable (s : Store) (mode : PrintMode)

/-- The text of the content of an atom, when a number of atoms may be followed. -/
def contentText : (depth : Nat) → Address → Except Stop String
  | 0, _ => .error .stackExhausted
  | depth + 1, a =>
    match s.content? a with
    | some v => s.printFrom mode depth v
    | none => .error .stackExhausted

theorem printFrom_eq (depth : Nat) (v : Value) :
    s.printFrom mode depth v = v.printWith (s.contentText mode depth) mode := by
  cases depth <;> rfl

theorem contentText_of_some {a : Address} {v : Value} (h : s.content? a = some v) (depth : Nat) :
    s.contentText mode (depth + 1) a = v.printWith (s.contentText mode depth) mode := by
  rw [contentText, h]
  exact s.printFrom_eq mode depth v

theorem contentText_of_none {a : Address} (h : s.content? a = none) (depth : Nat) :
    s.contentText mode depth a = .error .stackExhausted := by
  cases depth with
  | zero => rfl
  | succ depth => rw [contentText, h]

theorem improves_contentText (depth : Nat) (a : Address) :
    Improves (s.contentText mode depth a) (s.contentText mode (depth + 1) a) := by
  induction depth generalizing a with
  | zero => exact .inl rfl
  | succ depth ih =>
    cases h : s.content? a with
    | none => exact .inl (s.contentText_of_none mode h _)
    | some v =>
      rw [s.contentText_of_some mode h, s.contentText_of_some mode h]
      exact v.improves_printWith ih mode

theorem contentText_succ {depth depth' : Nat}
    (h : s.contentText mode depth = s.contentText mode depth') :
    s.contentText mode (depth + 1) = s.contentText mode (depth' + 1) := by
  funext a
  cases hcontent : s.content? a with
  | none => rw [s.contentText_of_none mode hcontent, s.contentText_of_none mode hcontent]
  | some v => rw [s.contentText_of_some mode hcontent, s.contentText_of_some mode hcontent, h]

/-- The atoms whose contents have a text, or none for another reason, when a number of atoms may be
followed. -/
def settled (depth : Nat) : Finset Address :=
  (Finset.range s.contents.size).filter fun a => !isExhausted (s.contentText mode depth a)

variable {s mode}

theorem mem_settled {depth : Nat} {a : Address} : a ∈ s.settled mode depth ↔
    a < s.contents.size ∧ s.contentText mode depth a ≠ .error .stackExhausted := by
  rw [settled, Finset.mem_filter, Finset.mem_range, Bool.not_eq_true', ← Bool.not_eq_true,
    isExhausted_iff]

theorem settled_subset (depth : Nat) : s.settled mode depth ⊆ s.settled mode (depth + 1) := by
  intro a ha
  obtain ⟨hlt, hne⟩ := mem_settled.1 ha
  have heq := (s.improves_contentText mode depth a).resolve_left hne
  exact mem_settled.2 ⟨hlt, heq ▸ hne⟩

theorem contentText_eq_of_card {depth : Nat}
    (h : (s.settled mode depth).card = (s.settled mode (depth + 1)).card) :
    s.contentText mode depth = s.contentText mode (depth + 1) := by
  have hsettled := Finset.eq_of_subset_of_card_le (settled_subset depth) h.ge
  funext a
  rcases s.improves_contentText mode depth a with hexhausted | heq
  · by_contra hne
    have hlt : a < s.contents.size := by
      by_contra hge
      have hnone : s.content? a = none := Array.getElem?_eq_none (Nat.le_of_not_lt hge)
      exact hne (hexhausted.trans (s.contentText_of_none mode hnone _).symm)
    have hmem : a ∈ s.settled mode (depth + 1) :=
      mem_settled.2 ⟨hlt, fun hexhausted' => hne (hexhausted.trans hexhausted'.symm)⟩
    exact (mem_settled.1 (hsettled ▸ hmem)).2 hexhausted
  · exact heq.symm

/-- Nothing is settled later than when all atoms there are may be followed. -/
theorem contentText_eq {depth : Nat} (h : s.contents.size ≤ depth) :
    s.contentText mode depth = s.contentText mode s.contents.size := by
  have hmono : Monotone fun depth => (s.settled mode depth).card :=
    monotone_nat_of_le_succ fun depth => Finset.card_le_card (settled_subset depth)
  have hbound (depth : Nat) : (s.settled mode depth).card ≤ s.contents.size :=
    (Finset.card_filter_le _ _).trans_eq (Finset.card_range _)
  have hstable {depth : Nat}
      (hcard : (s.settled mode depth).card = (s.settled mode (depth + 1)).card) :
      (s.settled mode (depth + 1)).card = (s.settled mode (depth + 2)).card := by
    unfold settled
    rw [s.contentText_succ mode (contentText_eq_of_card hcard)]
  have hcard {depth : Nat} (hdepth : s.contents.size ≤ depth) :
      (s.settled mode depth).card = (s.settled mode s.contents.size).card :=
    Nat.stabilises_of_monotone hmono hbound (fun _ => hstable) hdepth
  induction depth, h using Nat.le_induction with
  | base => rfl
  | succ depth hdepth ih =>
    have hsame := (hcard hdepth).trans (hcard (hdepth.trans (Nat.le_succ depth))).symm
    exact (contentText_eq_of_card hsame).symm.trans ih

/-- Following more atoms than there are changes no text. -/
theorem printFrom_eq_print {depth : Nat} (h : s.contents.size ≤ depth) (v : Value) :
    s.printFrom mode depth v = s.print mode v := by
  rw [print, printFrom_eq, printFrom_eq, contentText_eq h]

end Store

end SmallLisp
