import Mathlib.Tactic
import SmallLisp.Datum.Key

/-!
# Entries under keys

Pairs with distinct keys are the entries of the map that is made of them, and whatever holds of
all keys and all values of the pairs holds of those of the entries. Pairs with the same key are
merged into one entry.
-/

namespace SmallLisp.Key

variable {α : Type} {keyOf : α → Option Key}

theorem insert_of_not_mem {entries : List (α × α)} {k : α} (v : α)
    (h : keyOf k ∉ entries.map fun entry => keyOf entry.1) :
    insert keyOf entries k v = entries ++ [(k, v)] := by
  induction entries with
  | nil => rfl
  | cons entry entries ih =>
    rw [List.map_cons, List.mem_cons, not_or] at h
    rw [insert, if_neg (Ne.symm h.1), ih h.2, List.cons_append]

theorem collapse_of_distinct {entries : List (α × α)} (h : Distinct keyOf entries) :
    collapse keyOf entries = entries := by
  suffices hfold : ∀ later earlier : List (α × α), Distinct keyOf (earlier ++ later) →
      later.foldl (fun es p => insert keyOf es p.1 p.2) earlier = earlier ++ later from
    hfold entries [] h
  intro later
  induction later with
  | nil => simp
  | cons entry later ih =>
    intro earlier hdistinct
    have hk : keyOf entry.1 ∉ earlier.map fun entry => keyOf entry.1 := by
      rw [Distinct, List.map_append, List.nodup_append] at hdistinct
      exact fun hmem => hdistinct.2.2 _ hmem _ (by simp) rfl
    rw [List.foldl_cons, insert_of_not_mem _ hk, ih _ (by simpa using hdistinct)]
    simp

variable {P Q : α → Prop}

theorem forall_insert {entries : List (α × α)} (h : ∀ entry ∈ entries, P entry.1 ∧ Q entry.2)
    {k v : α} (hk : P k) (hv : Q v) :
    ∀ entry ∈ insert keyOf entries k v, P entry.1 ∧ Q entry.2 := by
  induction entries with
  | nil => simpa [insert] using ⟨hk, hv⟩
  | cons entry entries ih =>
    obtain ⟨k', v'⟩ := entry
    rw [List.forall_mem_cons] at h
    rw [insert]
    split_ifs
    · exact List.forall_mem_cons.2 ⟨⟨h.1.1, hv⟩, h.2⟩
    · exact List.forall_mem_cons.2 ⟨h.1, ih h.2⟩

theorem forall_collapse {pairs : List (α × α)} (h : ∀ pair ∈ pairs, P pair.1 ∧ Q pair.2) :
    ∀ entry ∈ collapse keyOf pairs, P entry.1 ∧ Q entry.2 := by
  suffices hfold : ∀ entries : List (α × α), (∀ entry ∈ entries, P entry.1 ∧ Q entry.2) →
      ∀ entry ∈ pairs.foldl (fun es p => insert keyOf es p.1 p.2) entries,
        P entry.1 ∧ Q entry.2 from
    hfold [] (by simp)
  induction pairs with
  | nil => exact fun _ hentries => hentries
  | cons pair pairs ih =>
    rw [List.forall_mem_cons] at h
    exact fun entries hentries => ih h.2 _ (forall_insert hentries h.1.1 h.1.2)

/-- Entries that are left when pairs are merged. Two pairs have the same place exactly when their
keys are the same; the first one of those gives the key of the entry and the last one the value. -/
def Merged (same : α → α → Prop) (pairs entries : List (α × α)) : Prop :=
  ∃ place : Fin pairs.length → Fin entries.length, Function.Surjective place ∧
    (∀ i j, place i = place j ↔ same pairs[i].1 pairs[j].1) ∧
    (∀ i, (∀ j, place j = place i → i ≤ j) → entries[place i].1 = pairs[i].1) ∧
    ∀ i, (∀ j, place j = place i → j ≤ i) → entries[place i].2 = pairs[i].2

theorem Merged.congr {same same' : α → α → Prop} {pairs entries : List (α × α)}
    (h : Merged same pairs entries)
    (hsame : ∀ p ∈ pairs, ∀ q ∈ pairs, (same p.1 q.1 ↔ same' p.1 q.1)) :
    Merged same' pairs entries := by
  obtain ⟨place, hsurjective, hplace, hfirst, hlast⟩ := h
  refine ⟨place, hsurjective, fun i j => (hplace i j).trans ?_, hfirst, hlast⟩
  exact hsame _ (List.getElem_mem _) _ (List.getElem_mem _)

theorem find?_insert (entries : List (α × α)) (k v : α) (key : Option Key) :
    (insert keyOf entries k v).find? (fun e => keyOf e.1 = key) =
      if keyOf k = key then
        some (((entries.find? fun e => keyOf e.1 = key).map Prod.fst).getD k, v)
      else entries.find? fun e => keyOf e.1 = key := by
  induction entries with
  | nil => by_cases hk : keyOf k = key <;> simp [insert, hk]
  | cons entry entries ih =>
    obtain ⟨k', v'⟩ := entry
    by_cases hk' : keyOf k' = keyOf k
    · rw [insert, if_pos hk']
      by_cases hk : keyOf k = key <;> simp [hk', hk]
    · rw [insert, if_neg hk']
      by_cases hk : keyOf k' = key
      · have hne : keyOf k ≠ key := fun h => hk' (hk.trans h.symm)
        simp [hk, hne]
      · simp [hk, ih]

/-- Under a key there is the first key of the pairs with the last value. -/
theorem find?_collapse (pairs : List (α × α)) (key : Option Key) :
    (collapse keyOf pairs).find? (fun e => keyOf e.1 = key) =
      (pairs.find? fun p => keyOf p.1 = key).bind fun first =>
        (pairs.reverse.find? fun p => keyOf p.1 = key).map fun last => (first.1, last.2) := by
  induction pairs using List.reverseRecOn with
  | nil => rfl
  | append_singleton pairs pair ih =>
    have hcollapse : collapse keyOf (pairs ++ [pair]) =
        insert keyOf (collapse keyOf pairs) pair.1 pair.2 := by
      simp [collapse]
    rw [hcollapse, find?_insert, ih, List.find?_append, List.reverse_concat, List.find?_cons]
    by_cases hpair : keyOf pair.1 = key
    · cases hfirst : pairs.find? fun p => keyOf p.1 = key with
      | none => simp [hpair]
      | some first =>
        have hlast : (pairs.reverse.find? fun p => keyOf p.1 = key).isSome := by
          have hkey := List.find?_some hfirst
          rw [List.find?_isSome]
          exact ⟨first, by simpa using List.mem_of_find?_eq_some hfirst, hkey⟩
        obtain ⟨last, hlast⟩ := Option.isSome_iff_exists.1 hlast
        simp [hpair, hlast]
    · simp [hpair]

theorem find?_of_distinct {entries : List (α × α)} (h : Distinct keyOf entries) {entry : α × α}
    (hentry : entry ∈ entries) :
    entries.find? (fun e => keyOf e.1 = keyOf entry.1) = some entry := by
  induction entries with
  | nil => cases hentry
  | cons first entries ih =>
    obtain ⟨hfirst, hentries⟩ := List.nodup_cons.1 h
    rcases List.mem_cons.1 hentry with rfl | hentry
    · simp
    · have hne : keyOf first.1 ≠ keyOf entry.1 := fun heq =>
        hfirst (List.mem_map.2 ⟨entry, hentry, heq.symm⟩)
      simpa [hne] using ih hentries hentry

theorem mem_map_collapse {pairs : List (α × α)} {key : Option Key} :
    key ∈ (collapse keyOf pairs).map (fun entry => keyOf entry.1) ↔
      key ∈ pairs.map fun pair => keyOf pair.1 := by
  suffices hfold : ∀ entries : List (α × α),
      key ∈ (pairs.foldl (fun es p => insert keyOf es p.1 p.2) entries).map
        (fun entry => keyOf entry.1) ↔
      key ∈ (entries ++ pairs).map fun pair => keyOf pair.1 from hfold []
  induction pairs with
  | nil => simp
  | cons pair pairs ih =>
    intro entries
    rw [List.foldl_cons, ih, List.map_append, List.mem_append, mem_map_insert]
    simp only [List.map_append, List.map_cons, List.mem_append, List.mem_cons]
    tauto

theorem exists_entry {pairs : List (α × α)} {pair : α × α} (h : pair ∈ pairs) :
    ∃ entry ∈ collapse keyOf pairs, keyOf entry.1 = keyOf pair.1 :=
  List.mem_map.1 (mem_map_collapse.2 (List.mem_map_of_mem h))

theorem exists_pair {pairs : List (α × α)} {entry : α × α} (h : entry ∈ collapse keyOf pairs) :
    ∃ pair ∈ pairs, keyOf pair.1 = keyOf entry.1 :=
  List.mem_map.1 (mem_map_collapse.1 (List.mem_map_of_mem h))

theorem Distinct.eq_of_key {entries : List (α × α)} (h : Distinct keyOf entries)
    {p q : Fin entries.length} (hkey : keyOf entries[p].1 = keyOf entries[q].1) : p = q := by
  have hp : (p : ℕ) < (entries.map fun entry => keyOf entry.1).length := by simp
  have hq : (q : ℕ) < (entries.map fun entry => keyOf entry.1).length := by simp
  exact Fin.ext ((@List.Nodup.getElem_inj_iff _ _ h _ hp _ hq).1 (by simpa using hkey))

section

variable {pairs : List (α × α)} {entry pair : α × α} (h : entry ∈ collapse keyOf pairs)
include h

theorem fst_of_find? (hpair : pairs.find? (fun p => keyOf p.1 = keyOf entry.1) = some pair) :
    entry.1 = pair.1 := by
  have hfound := find?_of_distinct (distinct_collapse pairs) h
  rw [find?_collapse, hpair] at hfound
  obtain ⟨last, -, rfl⟩ := Option.map_eq_some_iff.1 hfound
  rfl

theorem snd_of_find?_reverse
    (hpair : pairs.reverse.find? (fun p => keyOf p.1 = keyOf entry.1) = some pair) :
    entry.2 = pair.2 := by
  have hfound := find?_of_distinct (distinct_collapse pairs) h
  rw [find?_collapse, hpair] at hfound
  obtain ⟨first, -, hfound⟩ := Option.bind_eq_some_iff.1 hfound
  obtain rfl := Option.some.inj hfound
  rfl

end

/-- The first pair of all those under its key is found under the key. -/
theorem find?_of_first {pairs : List (α × α)} {i : ℕ} (hi : i < pairs.length)
    (h : ∀ j (hj : j < pairs.length), keyOf pairs[j].1 = keyOf pairs[i].1 → i ≤ j) :
    pairs.find? (fun p => keyOf p.1 = keyOf pairs[i].1) = some pairs[i] := by
  rw [List.find?_eq_some_iff_getElem]
  refine ⟨by simp, i, hi, rfl, fun j hj => ?_⟩
  simpa using fun hkey => Nat.not_le.2 hj (h j (hj.trans hi) hkey)

theorem find?_reverse_of_last {pairs : List (α × α)} {i : ℕ} (hi : i < pairs.length)
    (h : ∀ j (hj : j < pairs.length), keyOf pairs[j].1 = keyOf pairs[i].1 → j ≤ i) :
    pairs.reverse.find? (fun p => keyOf p.1 = keyOf pairs[i].1) = some pairs[i] := by
  have hlength : pairs.length - 1 - i < pairs.reverse.length := by
    rw [List.length_reverse]
    omega
  have hindex : pairs.length - 1 - (pairs.length - 1 - i) = i := by omega
  have hreverse : pairs.reverse[pairs.length - 1 - i] = pairs[i] := by
    simp only [List.getElem_reverse, hindex]
  rw [← hreverse]
  refine find?_of_first hlength fun j hj hkey => ?_
  rw [List.length_reverse] at hj
  rw [hreverse, List.getElem_reverse] at hkey
  have := h _ (by omega) hkey
  omega

theorem merged_collapse (pairs : List (α × α)) :
    Merged (fun a b => keyOf a = keyOf b) pairs (collapse keyOf pairs) := by
  have hexists : ∀ i : Fin pairs.length, ∃ q : Fin (collapse keyOf pairs).length,
      keyOf (collapse keyOf pairs)[q].1 = keyOf pairs[i].1 := by
    intro i
    obtain ⟨entry, hentry, hkey⟩ := exists_entry (List.getElem_mem i.2)
    obtain ⟨q, hq, rfl⟩ := List.getElem_of_mem hentry
    exact ⟨⟨q, hq⟩, hkey⟩
  choose place hplace using hexists
  have hiff (i j : Fin pairs.length) : place i = place j ↔
      keyOf pairs[i].1 = keyOf pairs[j].1 := by
    rw [← hplace i, ← hplace j]
    exact ⟨fun h => by rw [h], (distinct_collapse pairs).eq_of_key⟩
  refine ⟨place, fun q => ?_, hiff, fun i hfirst => ?_, fun i hlast => ?_⟩
  · obtain ⟨pair, hpair, hkey⟩ := exists_pair (List.getElem_mem q.2)
    obtain ⟨i, hi, rfl⟩ := List.getElem_of_mem hpair
    exact ⟨⟨i, hi⟩, (distinct_collapse pairs).eq_of_key ((hplace ⟨i, hi⟩).trans hkey)⟩
  · refine fst_of_find? (List.getElem_mem _) ?_
    have hfound := find?_of_first i.2 fun j hj hkey => hfirst ⟨j, hj⟩ ((hiff ⟨j, hj⟩ i).2 hkey)
    exact (hplace i).symm ▸ hfound
  · refine snd_of_find?_reverse (List.getElem_mem _) ?_
    have hfound := find?_reverse_of_last i.2 fun j hj hkey =>
      hlast ⟨j, hj⟩ ((hiff ⟨j, hj⟩ i).2 hkey)
    exact (hplace i).symm ▸ hfound

/-- What is left of a list stands in the order of the list: of two things that are left, the one in
front has its like in the list before any like of the other one. -/
def InOrder (same : α → α → Prop) (all left : List α) : Prop :=
  left.Pairwise fun k k' => ∀ front l back, all = front ++ l :: back → same l k' →
    ∃ earlier ∈ front, same earlier k

theorem InOrder.congr {same same' : α → α → Prop} {all left : List α} (h : InOrder same all left)
    (hsame : ∀ l ∈ all, ∀ k ∈ left, (same l k ↔ same' l k)) : InOrder same' all left := by
  refine List.Pairwise.imp_of_mem (fun {k k'} hk hk' horder front l back hall hl => ?_) h
  have hmem : ∀ l' ∈ front ++ l :: back, l' ∈ all := fun l' hl' => hall ▸ hl'
  obtain ⟨earlier, hearlier, hk₁⟩ :=
    horder front l back hall ((hsame l (hmem l (by simp)) k' hk').2 hl)
  exact ⟨earlier, hearlier,
    (hsame earlier (hmem earlier (List.mem_append_left _ hearlier)) k hk).1 hk₁⟩

theorem map_fst_insert (entries : List (α × α)) (k v : α) :
    (insert keyOf entries k v).map Prod.fst =
      if keyOf k ∈ entries.map (fun entry => keyOf entry.1) then entries.map Prod.fst
      else entries.map Prod.fst ++ [k] := by
  induction entries with
  | nil => rfl
  | cons entry entries ih =>
    obtain ⟨k', v'⟩ := entry
    by_cases hk : keyOf k' = keyOf k
    · simp [insert, hk]
    · rw [insert, if_neg hk, List.map_cons, ih, List.map_cons, List.map_cons]
      by_cases hmem : keyOf k ∈ entries.map fun entry => keyOf entry.1
      · rw [if_pos hmem, if_pos (List.mem_cons_of_mem _ hmem)]
      · rw [if_neg hmem, if_neg (by simpa [Ne.symm hk] using hmem), List.cons_append]

/-- A list may go on behind what settles the order of the things that are left of it. -/
theorem InOrder.snoc {same : α → α → Prop} {all left : List α} (h : InOrder same all left) (l : α)
    (hleft : ∀ k ∈ left, ∃ earlier ∈ all, same earlier k) : InOrder same (all ++ [l]) left := by
  refine List.Pairwise.imp_of_mem (fun {k k'} hk _ horder front l' back hall hl' => ?_) h
  rcases List.eq_nil_or_concat back with rfl | ⟨back, last, rfl⟩
  · obtain ⟨rfl, -⟩ := List.append_inj' hall rfl
    exact hleft k hk
  · have hall' : all ++ [l] = (front ++ l' :: back) ++ [last] := by simpa using hall
    exact horder front l' back (List.append_inj' hall' rfl).1 hl'

theorem inOrder_collapse (pairs : List (α × α)) :
    InOrder (fun a b => keyOf a = keyOf b) (pairs.map Prod.fst)
      ((collapse keyOf pairs).map Prod.fst) := by
  induction pairs using List.reverseRecOn with
  | nil => exact List.Pairwise.nil
  | append_singleton pairs pair ih =>
    have hcollapse : collapse keyOf (pairs ++ [pair]) =
        insert keyOf (collapse keyOf pairs) pair.1 pair.2 := by
      simp [collapse]
    have hleft : ∀ k ∈ (collapse keyOf pairs).map Prod.fst,
        ∃ earlier ∈ pairs.map Prod.fst, keyOf earlier = keyOf k := by
      intro k hk
      obtain ⟨entry, hentry, rfl⟩ := List.mem_map.1 hk
      obtain ⟨pair, hpair, hkey⟩ := exists_pair hentry
      exact ⟨pair.1, List.mem_map_of_mem hpair, hkey⟩
    have hold := ih.snoc pair.1 hleft
    rw [hcollapse, map_fst_insert, List.map_append, List.map_singleton]
    split_ifs with hmem
    · exact hold
    · -- A new key comes first at the end, behind all the others.
      rw [mem_map_collapse] at hmem
      refine List.pairwise_append.2 ⟨hold, List.pairwise_singleton _ _, fun k hk k' hk' => ?_⟩
      obtain rfl := List.mem_singleton.1 hk'
      intro front l back hall hl
      obtain ⟨earlier, hearlier, hkey⟩ := hleft k hk
      rcases List.eq_nil_or_concat back with rfl | ⟨back, last, rfl⟩
      · obtain ⟨rfl, -⟩ := List.append_inj' hall rfl
        exact ⟨earlier, hearlier, hkey⟩
      · have hall' : pairs.map Prod.fst ++ [pair.1] = (front ++ l :: back) ++ [last] := by
          simpa using hall
        have hl' : l ∈ pairs.map Prod.fst := by
          rw [(List.append_inj' hall' rfl).1]
          simp
        obtain ⟨p, hp, rfl⟩ := List.mem_map.1 hl'
        exact absurd (List.mem_map.2 ⟨p, hp, hl⟩) hmem

end SmallLisp.Key
