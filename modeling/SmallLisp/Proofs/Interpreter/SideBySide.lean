import Mathlib.Tactic
import SmallLisp.Proofs.Interpreter.Newcomer
import SmallLisp.Proofs.Interpreter.Request

/-!
# Interpreters side by side

Interpreters that share no scope and no atom do not influence each other: in whichever order they
are asked to run texts, each responds as if it had been asked alone. New interpreters share nothing.
-/

namespace SmallLisp

open Eval Interpreter

/-- Every interpreter has a world of its own, with the common store on the left and the store in
which it is alone on the right, and no scope and no atom is in the worlds of two of them. -/
structure Apart (interpreters : ScopeId → Prop) (s : Store) (W : ∀ root, World root root) :
    Prop where
  left {root : ScopeId} : interpreters root → (W root).left = s
  agree {root : ScopeId} : interpreters root → (W root).Agree
  level {root : ScopeId} : interpreters root → (W root).right.logLevel = s.logLevel
  apart {root root' : ScopeId} {k : Kind} {i j j' : Nat} : interpreters root →
    interpreters root' → root ≠ root' → k ≠ .object → (W root).pairs k i j →
    ¬ (W root').pairs k i j'

/-- The worlds after one interpreter has come to a later one, whose left store is the common one. -/
def advance (W : ∀ root, World root root) (root : ScopeId) (V : World root root) :
    ∀ root, World root root :=
  Function.update (fun root => (W root).withStores V.left (W root).right) root V

theorem advance_self (W : ∀ root, World root root) (root : ScopeId) (V : World root root) :
    advance W root V root = V := Function.update_self ..

theorem advance_of_ne (W : ∀ root, World root root) {root root' : ScopeId} (V : World root root)
    (h : root' ≠ root) : advance W root V root' = (W root').withStores V.left (W root').right :=
  Function.update_of_ne h ..

theorem forall_advance {motive : ∀ root, World root root → Prop} {W : ∀ root, World root root}
    {root : ScopeId} {V : World root root} (hself : motive root V)
    (hother : ∀ {root'}, root' ≠ root →
      motive root' ((W root').withStores V.left (W root').right)) (root' : ScopeId) :
    motive root' (advance W root V root') := by
  by_cases hne : root' = root
  · subst hne
    rw [advance_self]
    exact hself
  · rw [advance_of_ne W V hne]
    exact hother hne

namespace Apart

variable {interpreters : ScopeId → Prop} {s : Store} {W : ∀ root, World root root} {r : Request}
  {V : World r.root r.root}

section

variable (h : Apart interpreters s W) (hr : interpreters r.root) (hV : (W r.root).Serves r V)
include h hr hV

/-- What is in the world of another interpreter holds what it held. -/
theorem sameAt {root : ScopeId} (hroot : interpreters root) (hne : root ≠ r.root) {k : Kind}
    {i j : Nat} (hij : (W root).pairs k i j) : (W root).left.SameAt V.left k i := by
  have hlt := (h.agree hroot).left_lt hij
  rw [h.left hroot, ← h.left hr] at hlt ⊢
  by_cases hk : k = .object
  · subst hk
    trivial
  · exact hV.same hlt fun j' => h.apart hroot hr hne hk hij

/-- What is in the world of another interpreter is not made by this one. -/
theorem not_pairs {root : ScopeId} (hroot : interpreters root) (hne : root ≠ r.root) {k : Kind}
    {i j j' : Nat} (hk : k ≠ .object) (hij : (W root).pairs k i j) : ¬ V.pairs k i j' := by
  intro hij'
  rcases hV.new hij' with hold | hge
  · exact h.apart hroot hr hne hk hij hold
  · have hlt := (h.agree hroot).left_lt hij
    rw [h.left hroot, ← h.left hr] at hlt
    exact Nat.not_le.2 hlt hge

/-- The worlds go on being apart when one interpreter has served a request: the others keep their
pairs, and the stores in which they are alone. -/
theorem advance : Apart interpreters V.left (advance W r.root V) := by
  constructor
  · exact fun {root} _ =>
      forall_advance (motive := fun _ W => W.left = V.left) rfl (fun _ => rfl) root
  · refine fun {root} => forall_advance (motive := fun root W => interpreters root → W.Agree)
      (fun _ => hV.agree) (fun hne hroot => ?_) root
    refine (h.agree hroot).keep (h.sameAt hr hV hroot hne) (fun _ => .refl _ _ _) ?_ le_rfl
    rw [h.left hroot, ← h.left hr]
    exact hV.count_le .object
  · rw [hV.level, h.left hr]
    refine fun {root} => forall_advance
      (motive := fun root W => interpreters root → W.right.logLevel = s.logLevel)
      (fun _ => ?_) (fun _ => h.level) root
    rw [hV.level', h.level hr]
  · intro root root' k i j j' hroot hroot' hne hk hij hij'
    by_cases hself : root = r.root
    · subst hself
      rw [advance_self] at hij
      rw [advance_of_ne W V hne.symm] at hij'
      exact h.not_pairs hr hV hroot' hne.symm hk hij' hij
    · rw [advance_of_ne W V hself] at hij
      by_cases hself' : root' = r.root
      · subst hself'
        rw [advance_self] at hij'
        exact h.not_pairs hr hV hroot hself hk hij hij'
      · rw [advance_of_ne W V hself'] at hij'
        exact h.apart hroot hroot' hne hk hij hij'

omit h hr in
theorem pairs_advance {root : ScopeId} {k : Kind} {i j : Nat} (hij : (W root).pairs k i j) :
    (SmallLisp.advance W r.root V root).pairs k i j :=
  forall_advance (motive := fun root W' => (W root).pairs k i j → W'.pairs k i j)
    hV.mono (fun _ => id) root hij

end

/-- Requests in any order: an interpreter responds to its own as it does when it is alone. -/
theorem serveAll (h : Apart interpreters s W) {requests : List Request}
    (hroots : ∀ r ∈ requests, interpreters r.root)
    (hscopes : ∀ r ∈ requests, (W r.root).pairs .scope r.scope r.scope) :
    ∃ W' : ∀ root, World root root, Apart interpreters (Interpreter.serveAll requests s).2 W' ∧
      (∀ {root k i j}, (W root).pairs k i j → (W' root).pairs k i j) ∧
      ∀ root,
        (W' root).right = (Interpreter.serveAll (requests.filter (·.root = root))
          (W root).right).2 ∧
        List.Forall₂ (W' root).ResponsesMatch
          ((Interpreter.serveAll requests s).1.filter (·.root = root))
          (Interpreter.serveAll (requests.filter (·.root = root)) (W root).right).1 := by
  induction requests generalizing s W with
  | nil => exact ⟨W, h, id, fun root => ⟨rfl, .nil⟩⟩
  | cons r requests ih =>
    rw [List.forall_mem_cons] at hroots hscopes
    have hleft := h.left hroots.1
    obtain ⟨V, hV⟩ := World.exists_serves (h.agree hroots.1)
      ((h.level hroots.1).trans (hleft ▸ rfl)) rfl hscopes.1
    have hserve := hV.left
    have hresponse := hV.responses
    rw [hleft] at hserve hresponse
    have hadvance := h.advance hroots.1 hV
    rw [hserve] at hadvance
    obtain ⟨W', hW', hmono, hrest⟩ := ih hadvance hroots.2
      fun r' hr' => pairs_advance hV (hscopes.2 r' hr')
    have hself {k : Kind} {i j : Nat} (hij : V.pairs k i j) : (W' r.root).pairs k i j :=
      hmono ((advance_self W r.root V).symm ▸ hij)
    refine ⟨W', hW', fun hij => hmono (pairs_advance hV hij), fun root => ?_⟩
    obtain ⟨hright, hresponses⟩ := hrest root
    by_cases hroot : r.root = root
    · subst hroot
      rw [advance_self, hV.right] at hright hresponses
      rw [serveAll_cons, List.filter_cons_of_pos (by simp),
        List.filter_cons_of_pos (by simp [root_serve]), serveAll_cons]
      exact ⟨hright, .cons (hresponse.mono hself) hresponses⟩
    · rw [advance_of_ne W V (Ne.symm hroot)] at hright hresponses
      rw [serveAll_cons, List.filter_cons_of_neg (by simpa using hroot),
        List.filter_cons_of_neg (by simp [root_serve, hroot])]
      exact ⟨hright, hresponses⟩

end Apart

/-- No scope and no atom can be reached in a store by two interpreters from the scopes in which they
are asked to run. -/
def ShareNothing (s : Store) (requests : List Request) : Prop :=
  ∀ r ∈ requests, ∀ r' ∈ requests, r.root ≠ r'.root → ∀ {k i}, k ≠ .object →
    s.Reach r.root (startIn r.scope) k i → ¬ s.Reach r'.root (startIn r'.scope) k i

/-- What an interpreter can reach from all the scopes in which it is asked to run. -/
def territory (requests : List Request) (s : Store) (root : ScopeId) : Kind → Nat → Prop :=
  s.Reach root fun k i => ∃ r ∈ requests, r.root = root ∧ startIn r.scope k i

theorem exists_reach_of_territory {requests : List Request} {s : Store} {root : ScopeId} {k : Kind}
    {i : Nat} (h : territory requests s root k i) :
    ∃ r ∈ requests, r.root = root ∧ s.Reach root (startIn r.scope) k i := by
  induction h with
  | start h =>
    obtain ⟨r, hr, hroot, h⟩ := h
    exact ⟨r, hr, hroot, .start h⟩
  | outer _ hscope houter ih =>
    obtain ⟨r, hr, hroot, h⟩ := ih
    exact ⟨r, hr, hroot, h.outer hscope houter⟩
  | binding _ hscope hentry hrefers ih =>
    obtain ⟨r, hr, hroot, h⟩ := ih
    exact ⟨r, hr, hroot, h.binding hscope hentry hrefers⟩
  | content _ hcontent hrefers ih =>
    obtain ⟨r, hr, hroot, h⟩ := ih
    exact ⟨r, hr, hroot, h.content hcontent hrefers⟩

/-- Interpreters that share nothing have worlds apart, in which all places are paired with
themselves. -/
theorem apart_of_shareNothing {requests : List Request} {s : Store}
    (hs : ∀ r ∈ requests, s.Sound r.root ∧ r.scope < s.scopes.size)
    (hshare : ShareNothing s requests) :
    Apart (fun root => ∃ r ∈ requests, r.root = root) s
      fun root => .within root (territory requests s root) s s := by
  constructor
  · exact fun _ => rfl
  · rintro root ⟨r, hr, rfl⟩
    have hstart {k : Kind} {i : Nat} :
        (∃ r' ∈ requests, r'.root = r.root ∧ startIn r'.scope k i) → i < s.count k := by
      rintro ⟨r', hr', -, h⟩
      exact lt_count_of_startIn (hs r hr).1 (hs r' hr').2 h
    exact World.agree_within (hs r hr).1 hstart ⟨r, hr, rfl, .inr ⟨rfl, rfl⟩⟩
      ⟨fun _ => .refl _ _ _, fun h => h.lt (hs r hr).1 hstart⟩
  · exact fun _ => rfl
  · rintro root root' k i j j' - - hne hk ⟨-, hi⟩ ⟨-, hi'⟩
    obtain ⟨r, hr, rfl, h⟩ := exists_reach_of_territory hi
    obtain ⟨r', hr', rfl, h'⟩ := exists_reach_of_territory hi'
    exact hshare r hr r' hr' hne hk h h'

/-- When all requests have been served the interpreters are apart, and each has responded to its own
requests as it does alone. -/
theorem exists_apart_of_shareNothing {requests : List Request} {s : Store}
    (hs : ∀ r ∈ requests, s.Sound r.root ∧ r.scope < s.scopes.size)
    (hshare : ShareNothing s requests) :
    ∃ W : ∀ root, World root root,
      Apart (fun root => ∃ r ∈ requests, r.root = root) (serveAll requests s).2 W ∧
      (∀ r ∈ requests, ∀ {k i}, s.Reach r.root (startIn r.scope) k i →
        (W r.root).pairs k i i) ∧
      ∀ root, (W root).right = (serveAll (requests.filter (·.root = root)) s).2 ∧
        List.Forall₂ (W root).ResponsesMatch ((serveAll requests s).1.filter (·.root = root))
          (serveAll (requests.filter (·.root = root)) s).1 := by
  have hreach {r : Request} (hr : r ∈ requests) {k : Kind} {i : Nat}
      (h : s.Reach r.root (startIn r.scope) k i) : territory requests s r.root k i :=
    h.mono fun h => ⟨r, hr, rfl, h⟩
  obtain ⟨W, hW, hmono, hresponses⟩ := (apart_of_shareNothing hs hshare).serveAll
    (fun r hr => ⟨r, hr, rfl⟩) fun r hr => ⟨rfl, hreach hr (.start (.inl ⟨rfl, rfl⟩))⟩
  exact ⟨W, hW, fun r hr _ _ h => hmono ⟨rfl, hreach hr h⟩, hresponses⟩

/-- Among requests to others an interpreter responds to its own as it does when these come alone.
The places that it could reach at the start keep their names. -/
def RespondsAsAlone (requests : List Request) (s : Store) (root : ScopeId) : Prop :=
  let own := requests.filter (·.root = root)
  ∃ W : World root root,
    (∀ r ∈ own, ∀ {k i}, s.Reach root (startIn r.scope) k i → W.pairs k i i) ∧ W.Agree ∧
    W.left = (serveAll requests s).2 ∧ W.right = (serveAll own s).2 ∧
    List.Forall₂ W.ResponsesMatch ((serveAll requests s).1.filter (·.root = root))
      (serveAll own s).1

/-- Interpreters that share nothing do not influence each other, in whichever order they are
asked. -/
theorem respondsAsAlone_of_shareNothing {requests : List Request} {s : Store}
    (hs : ∀ r ∈ requests, s.Sound r.root ∧ r.scope < s.scopes.size)
    (hshare : ShareNothing s requests) {r : Request} (hr : r ∈ requests) :
    RespondsAsAlone requests s r.root := by
  obtain ⟨W, hW, hpairs, hresponses⟩ := exists_apart_of_shareNothing hs hshare
  refine ⟨W r.root, ?_, hW.agree ⟨r, hr, rfl⟩, hW.left ⟨r, hr, rfl⟩, hresponses r.root⟩
  intro r' hr' k i h
  obtain ⟨hr', hroot⟩ := List.mem_filter.1 hr'
  obtain hroot : r'.root = r.root := of_decide_eq_true hroot
  exact hroot ▸ hpairs r' hr' (hroot ▸ h)

/-- Interpreters that share nothing never come to share anything. -/
theorem shareNothing_serveAll {requests : List Request} {s : Store}
    (hs : ∀ r ∈ requests, s.Sound r.root ∧ r.scope < s.scopes.size)
    (hshare : ShareNothing s requests) : ShareNothing (serveAll requests s).2 requests := by
  obtain ⟨W, hW, hpairs, -⟩ := exists_apart_of_shareNothing hs hshare
  have hpaired {r : Request} (hr : r ∈ requests) {k : Kind} {i : Nat}
      (h : (serveAll requests s).2.Reach r.root (startIn r.scope) k i) :
      ∃ j, (W r.root).pairs k i j := by
    rw [← hW.left ⟨r, hr, rfl⟩] at h
    exact (hW.agree ⟨r, hr, rfl⟩).paired_of_reach (fun hi => ⟨_, hpairs r hr (.start hi)⟩) h
  intro r hr r' hr' hne k i hk h h'
  obtain ⟨j, hij⟩ := hpaired hr h
  obtain ⟨j', hij'⟩ := hpaired hr' h'
  exact hW.apart ⟨r, hr, rfl⟩ ⟨r', hr', rfl⟩ hne hk hij hij'

/-- Any number of new interpreters, each asked to run texts in its root scope, share nothing. -/
theorem shareNothing_settlement (logLevel count : Nat) {requests : List Request}
    (hscopes : ∀ r ∈ requests, r.scope = r.root) :
    ShareNothing (settlement logLevel count) requests := by
  intro r hr r' hr' hne k i hk h h'
  rw [hscopes r hr] at h
  rw [hscopes r' hr'] at h'
  have hnew := new_settlement logLevel count
  exact hne (((hnew.reach h).resolve_left hk).2.symm.trans ((hnew.reach h').resolve_left hk).2)

theorem sound_settlement (logLevel : Nat) {count : Nat} {requests : List Request}
    (hscopes : ∀ r ∈ requests, r.scope = r.root) (hroots : ∀ r ∈ requests, r.root < count) :
    ∀ r ∈ requests, (settlement logLevel count).Sound r.root ∧
      r.scope < (settlement logLevel count).scopes.size := by
  intro r hr
  have hroot := (hroots r hr).trans_eq (size_settlement logLevel count).symm
  exact ⟨(new_settlement logLevel count).sound hroot, hscopes r hr ▸ hroot⟩

/-- Evaluation is confined to what it can reach. Whatever the interpreter, the form, the scope and
the sound store, and whether the evaluation returns or raises, nothing outside of what can be
reached is changed, the value leads nowhere else but to new places, and from every store that holds
the same there the outcome, the output and the changes are the same up to the names of what is new.
The store that is left is sound again. Hence interpreters that share nothing respond to their
requests, in whichever order all requests come, as if each of them were alone, and share nothing
afterwards either. The interpreter of the first scope is the one that programs are run by. -/
theorem confinement :
    (∀ passes room : Nat, runWith (rooted rootScope) passes room = run passes room) ∧
    (∀ (text : String) (scope : ScopeId), runIn rootScope text scope = Interpreter.run text scope) ∧
    (∀ {root : ScopeId} {s : Store} {form : Value} {scope : ScopeId} (passes room : Nat),
      s.Sound root → s.Has root form → scope < s.scopes.size →
        let x := runWith (rooted root) passes room (.eval form scope)
        Confined root (s.Reach root (startOf root form scope)) x s ∧
          (x.after s).Sound root ∧ ∀ v ∈ x.carried? s, (x.after s).Has root v) ∧
    ∀ {requests : List Request} {s : Store},
      (∀ r ∈ requests, s.Sound r.root ∧ r.scope < s.scopes.size) → ShareNothing s requests →
        ShareNothing (serveAll requests s).2 requests ∧
          ∀ r ∈ requests, RespondsAsAlone requests s r.root := by
  refine ⟨fun passes room => ?_, runIn_rootScope, fun passes room hs hform hscope => ?_,
    fun hs hshare => ?_⟩
  · funext job
    rw [rooted_rootScope, runWith_runBuiltin]
  · exact ⟨confined_runWith hs hform hscope passes room, sound_runWith hs hform hscope passes room⟩
  · exact ⟨shareNothing_serveAll hs hshare,
      fun r hr => respondsAsAlone_of_shareNothing hs hshare hr⟩

def neighbours : Store := settlement 30 2

/-- Both neighbours bind the same symbol, and one looks it up. -/
def dialogue : List Request := [⟨0, 0, "(def x 1)"⟩, ⟨1, 1, "(def x 2)"⟩, ⟨0, 0, "x"⟩]

theorem confinement_neighbours :
    (neighbours.Sound 1 ∧ neighbours.Has 1 (.sym "pi") ∧ 1 < neighbours.scopes.size ∧
      Confined 1 (neighbours.Reach 1 (startOf 1 (.sym "pi") 1))
        (runWith (rooted 1) 9 9 (.eval (.sym "pi") 1)) neighbours) ∧
    (∀ r ∈ dialogue, neighbours.Sound r.root ∧ r.scope < neighbours.scopes.size) ∧
    ShareNothing neighbours dialogue ∧ ShareNothing (serveAll dialogue neighbours).2 dialogue ∧
    RespondsAsAlone dialogue neighbours 0 := by
  have hsize : neighbours.scopes.size = 2 := size_settlement 30 2
  have hsound : neighbours.Sound 1 := (new_settlement 30 2).sound (hsize ▸ Nat.one_lt_two)
  have hhas : neighbours.Has 1 (.sym "pi") := by
    rintro k i (hplace | ⟨hpart, -⟩)
    · cases hplace
    · cases hpart
  have hscopes : ∀ r ∈ dialogue, r.scope = r.root := by decide
  have hroots : ∀ r ∈ dialogue, r.root < 2 := by decide
  have hsounds := sound_settlement 30 hscopes hroots
  have hshare := shareNothing_settlement 30 2 hscopes
  have hscope : 1 < neighbours.scopes.size := hsize ▸ Nat.one_lt_two
  obtain ⟨hconfined, -⟩ := confinement.2.2.1 9 9 hsound hhas hscope
  obtain ⟨hstill, hresponds⟩ := confinement.2.2.2 hsounds hshare
  exact ⟨⟨hsound, hhas, hscope, hconfined⟩, hsounds, hshare, hstill,
    hresponds ⟨0, 0, "x"⟩ (by simp [dialogue])⟩

end SmallLisp
