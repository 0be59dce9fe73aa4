import SmallLisp.Flonum.Basic

/-!
# Keys

Two entries of a map collide when their keys are the same. Numbers and truth values are the same
key when they are the same number, strings, symbols and keywords when they have the same
characters, and what has an identity of its own only collides with itself.
-/

namespace SmallLisp

inductive Key where
  | nil
  | int (n : Int)
  | float (x : Flonum)
  | nan (id : Nat)
  | str (s : String)
  | sym (name : String)
  | kw (name : String)
  | pair (first second : Key)
  | cell (address : Nat)
  | object (id : Nat)
  | builtin (name : String)
  deriving DecidableEq

namespace Key

def ofBool (b : Bool) : Key := int (if b then 1 else 0)

/-- A flonum that is an integer has the key of that integer. -/
def ofFlonum (x : Flonum) : Key :=
  match x.integer? with
  | some n => int n
  | none => float x

/-- Put a value at a key. The first key stays in its place and the last value wins. -/
def insert {α : Type} (keyOf : α → Option Key) (entries : List (α × α)) (k v : α) :
    List (α × α) :=
  match entries with
  | [] => [(k, v)]
  | (k', v') :: rest =>
    if keyOf k' = keyOf k then (k', v) :: rest else (k', v') :: insert keyOf rest k v

/-- The entries that are left when pairs are put one after the other. -/
def collapse {α : Type} (keyOf : α → Option Key) (pairs : List (α × α)) : List (α × α) :=
  pairs.foldl (fun entries pair => insert keyOf entries pair.1 pair.2) []

section

variable {α : Type} {keyOf : α → Option Key}

def Distinct (keyOf : α → Option Key) (entries : List (α × α)) : Prop :=
  (entries.map fun entry => keyOf entry.1).Nodup

theorem mem_map_insert {entries : List (α × α)} {k v : α} {key : Option Key} :
    key ∈ (insert keyOf entries k v).map (fun entry => keyOf entry.1) ↔
      key = keyOf k ∨ key ∈ entries.map fun entry => keyOf entry.1 := by
  induction entries with
  | nil => simp [insert]
  | cons entry rest ih =>
    obtain ⟨k', v'⟩ := entry
    by_cases h : keyOf k' = keyOf k
    · simp [insert, h]
    · rw [insert, if_neg h, List.map_cons, List.map_cons, List.mem_cons, List.mem_cons, ih]
      grind

theorem distinct_insert {entries : List (α × α)} (h : Distinct keyOf entries) (k v : α) :
    Distinct keyOf (insert keyOf entries k v) := by
  induction entries with
  | nil => simp [Distinct, insert]
  | cons entry rest ih =>
    obtain ⟨k', v'⟩ := entry
    simp only [Distinct, List.map_cons, List.nodup_cons] at h
    by_cases hk : keyOf k' = keyOf k
    · simp only [Distinct, insert, hk, if_true, List.map_cons, List.nodup_cons]
      exact ⟨hk ▸ h.1, h.2⟩
    · simp only [Distinct, insert, hk, if_false, List.map_cons, List.nodup_cons]
      exact ⟨fun hmem => (mem_map_insert.1 hmem).elim hk h.1, ih h.2⟩

theorem distinct_collapse (pairs : List (α × α)) : Distinct keyOf (collapse keyOf pairs) := by
  suffices ∀ entries, Distinct keyOf entries →
      Distinct keyOf (pairs.foldl (fun es p => insert keyOf es p.1 p.2) entries) from
    this [] (by simp [Distinct])
  induction pairs with
  | nil => exact fun _ h => h
  | cons pair rest ih => exact fun entries h => ih _ (distinct_insert h _ _)

end

end Key

end SmallLisp
