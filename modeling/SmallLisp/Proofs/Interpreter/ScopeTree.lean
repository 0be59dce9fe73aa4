import Mathlib.Tactic
import SmallLisp.Proofs.Eval.Lookup
import SmallLisp.Proofs.Interpreter.Host

/-!
# The tree of scopes

The scopes of a store form a tree: the root scope has no scope around it, and every other scope lies
in one that was made before it. New scopes are made in scopes in use only, and nothing puts a scope
into another one later. So every way outwards ends at the root scope, wherever the calls of a host
lead, and all that goes this way comes to an end.
-/

namespace SmallLisp

open Eval Template

namespace Store

variable {s s' : Store} {id outer : ScopeId} {ids : List ScopeId} {name : String}

/-- The first scope is the root scope, and all others lie in an older one. -/
structure Rooted (s : Store) : Prop where
  root : ∃ bindings, s.scope? rootScope = some ⟨Interpreter.rootName, none, bindings⟩
  outer {id : ScopeId} {scope : Scope} : s.scope? id = some scope → id ≠ rootScope →
    ∃ outer, scope.outer = some outer ∧ outer < id

/-- The binding that is found first in scopes, with the scope that has it. -/
def found? (s : Store) (ids : List ScopeId) (name : String) : Option (ScopeId × Value) :=
  ids.findSome? fun id => (s.own? id name).map (id, ·)

/-- The way outwards from a scope is finite, comes to no scope twice, goes from each scope to an
older one and ends at the root scope. To follow it and to search it for a symbol takes no more
rounds than it has scopes. -/
structure EndsAtRoot (s : Store) (id : ScopeId) (ids : List ScopeId) : Prop where
  outwards : s.Outwards id ids
  nodup : ids.Nodup
  older : ids.Pairwise fun inner outer => outer < inner
  root : ids.getLast? = some rootScope
  chain {bound : Nat} : ids.length ≤ bound → s.chainFrom bound id = ids
  find {bound : Nat} : ids.length ≤ bound → ∀ name,
    s.lookupFrom name bound id = s.found? ids name

theorem Rooted.congr (h : s.Rooted) (hscopes : s'.scopes = s.scopes) : s'.Rooted := by
  have hscope (id : ScopeId) : s'.scope? id = s.scope? id := congrArg (·[id]?) hscopes
  constructor
  · rw [hscope]
    exact h.root
  · intro id scope hid
    rw [hscope] at hid
    exact h.outer hid

theorem Rooted.size_pos (h : s.Rooted) : 0 < s.scopes.size := by
  obtain ⟨bindings, hroot⟩ := h.root
  exact Discipline.lt_of_scope? hroot

theorem Rooted.bind (h : s.Rooted) (id : ScopeId) (name : String) (v : Value) :
    (s.bind id name v).Rooted := by
  constructor
  · obtain ⟨bindings, hroot⟩ := h.root
    rw [scope?_bind, hroot]
    split_ifs
    · exact ⟨_, rfl⟩
    · exact ⟨_, rfl⟩
  · intro other scope hscope hother
    obtain ⟨scope', hscope', houter⟩ := outer_bind hscope
    exact houter ▸ h.outer hscope' hother

theorem Rooted.addScope (h : s.Rooted) (houter : outer < s.scopes.size) (name : String) :
    (s.addScope (some outer) name).2.Rooted := by
  constructor
  · have hold : rootScope ≠ s.scopes.size := h.size_pos.ne
    rw [scope?_addScope, if_neg hold]
    exact h.root
  · intro id scope hscope hid
    rw [scope?_addScope] at hscope
    split_ifs at hscope with hnew
    · obtain rfl := Option.some.inj hscope
      exact ⟨outer, rfl, hnew ▸ houter⟩
    · exact h.outer hscope hid

theorem Rooted.exists_outwards (h : s.Rooted) (hid : id < s.scopes.size) :
    ∃ ids, s.Outwards id ids ∧ ids.getLast? = some rootScope := by
  induction id using Nat.strong_induction_on with
  | h id ih =>
    by_cases hroot : id = rootScope
    · obtain ⟨bindings, hscope⟩ := h.root
      exact ⟨[id], .outermost (hroot ▸ hscope) rfl, by rw [hroot]; rfl⟩
    · obtain ⟨scope, hscope⟩ : ∃ scope, s.scope? id = some scope :=
        ⟨_, Array.getElem?_eq_getElem hid⟩
      obtain ⟨outer, houter, hlt⟩ := h.outer hscope hroot
      obtain ⟨ids, hids, hlast⟩ := ih outer hlt (hlt.trans hid)
      refine ⟨id :: ids, .inside hscope houter hlt hids, ?_⟩
      rw [List.getLast?_cons, hlast]
      rfl

theorem Outwards.le_of_mem (h : s.Outwards id ids) : ∀ other ∈ ids, other ≤ id := by
  induction h with
  | outermost _ _ => exact List.forall_mem_singleton.2 le_rfl
  | inside _ _ hlt _ ih =>
    exact List.forall_mem_cons.2 ⟨le_rfl, fun other hother => (ih other hother).trans hlt.le⟩

theorem Outwards.older (h : s.Outwards id ids) :
    ids.Pairwise fun inner outer => outer < inner := by
  induction h with
  | outermost _ _ => exact List.pairwise_singleton _ _
  | inside _ _ hlt hids ih =>
    exact List.pairwise_cons.2 ⟨fun other hother => (hids.le_of_mem other hother).trans_lt hlt, ih⟩

theorem Rooted.endsAtRoot (h : s.Rooted) (hid : id < s.scopes.size) :
    ∃ ids, s.EndsAtRoot id ids := by
  obtain ⟨ids, hids, hlast⟩ := h.exists_outwards hid
  refine ⟨ids, hids, hids.older.imp fun hlt => hlt.ne', hids.older, hlast, hids.chainFrom_eq, ?_⟩
  intro bound hbound name
  rw [s.lookupFrom_eq, hids.chainFrom_eq hbound]
  rfl

/-- Names that are joined end with the last one. -/
theorem intercalate_ends {names : List String} {last : String}
    (h : names.getLast? = some last) :
    String.intercalate " <- " names = last ∨
      ∃ front, String.intercalate " <- " names = front ++ " <- " ++ last := by
  obtain ⟨front, rfl⟩ := List.getLast?_eq_some_iff.1 h
  rcases front with _ | ⟨first, rest⟩
  · exact .inl String.intercalate_singleton
  · refine .inr ⟨String.intercalate " <- " (first :: rest), ?_⟩
    rw [String.intercalate_append_of_ne_nil (List.cons_ne_nil _ _) (List.cons_ne_nil _ _),
      String.intercalate_singleton]

theorem Rooted.scopeName_rootScope (h : s.Rooted) : s.scopeName rootScope = "repl" := by
  obtain ⟨bindings, hroot⟩ := h.root
  unfold scopeName
  rw [hroot]
  rfl

theorem EndsAtRoot.chainText_ends (h : s.EndsAtRoot id ids) (hs : s.Rooted) :
    s.chainText ids = "repl" ∨ ∃ front, s.chainText ids = front ++ " <- " ++ "repl" := by
  apply intercalate_ends
  rw [List.getLast?_map, h.root, Option.map_some, hs.scopeName_rootScope]

end Store

namespace Discipline

/-- New scopes are made in scopes in use only, so that the tree grows. -/
def rooting : Discipline where
  __ := placing
  later s s' := placing.later s s' ∧ (s.Rooted → s'.Rooted)
  captured count id := id = rootScope ∨ id < count
  current count id := id = rootScope ∨ id < count
  params := ⊤
  refl s := ⟨placing.refl s, id⟩
  trans h h' := ⟨placing.trans h.1 h'.1, fun hs => h'.2 (h.2 hs)⟩
  scopes_le h := h.1.1
  contents_le h := h.1.2
  captured_mono hle h := h.imp_right fun hlt => hlt.trans_le hle
  captured_succ h := by
    rcases h with h | h
    · exact .inl (.inl h)
    · exact (Nat.lt_succ_iff_lt_or_eq.1 h).imp_left .inr
  current_mono hle h := h.imp_right fun hlt => hlt.trans_le hle
  current_new _ := .inr (Nat.lt_succ_self _)
  captured_of_current h := h
  params_ok _ := trivial
  identity s next := ⟨placing.identity s next, fun hs => hs.congr rfl⟩
  write s text := ⟨placing.write s text, fun hs => hs.congr rfl⟩
  record s logger message :=
    ⟨placing.record s logger message, fun hs => hs.congr (Store.scopes_record _ _ _)⟩
  bind {_ id} _ name value := ⟨placing.bind trivial name value, fun hs => hs.bind id name value⟩
  addScope houter name := by
    refine ⟨placing.addScope trivial name, fun hs => hs.addScope ?_ name⟩
    rcases houter with rfl | houter
    · exact hs.size_pos
    · exact houter
  addContent h := ⟨placing.addContent fun _ _ _ => trivial, fun hs => hs.congr rfl⟩

instance : rooting.Rewriting :=
  ⟨fun _ _ => ⟨⟨le_rfl, Store.size_setContent.ge⟩, fun hs => hs.congr rfl⟩⟩

theorem holds_rooting_of_parts {s : Store} {v : Value} (hclosure : v.isClosure = false)
    (hparts : ∀ p ∈ v.parts, rooting.Holds s p) : rooting.Holds s v :=
  holds_of_parts (fun _ _ => trivial) (fun _ _ _ _ _ => trivial) (fun _ _ _ _ => trivial)
    (fun _ _ _ _ _ _ hv => by subst hv; cases hclosure) hparts

end Discipline

theorem rooted_create (logLevel : Nat) : (Interpreter.create logLevel).Rooted := by
  constructor
  · exact ⟨newRoot, hasRoot_create logLevel⟩
  · intro id scope hscope hid
    unfold Store.scope? at hscope
    rw [scopes_create] at hscope
    obtain ⟨hlt, -⟩ := Array.getElem?_eq_some_iff.1 hscope
    exact absurd (Nat.lt_one_iff.1 hlt) hid

variable {logLevel : Nat} {s : Store} {vs : List Value} {scopes : List ScopeId}

theorem Hosted.rooted (h : Hosted logLevel s vs scopes) :
    Discipline.rooting.InHand s vs scopes ∧ s.Rooted := by
  obtain ⟨hhand, hlater⟩ := h.inHand (D := Discipline.rooting) (fun _ => .inl rfl)
    (fun _ _ => .inr) (fun _ _ _ => trivial) rfl rfl Discipline.holds_rooting_of_parts
  exact ⟨hhand, hlater.2 (rooted_create logLevel)⟩

/-- Wherever the calls of a host lead, whether they return or raise, and in the middle of an
evaluation, all scopes that are in hand and all that closures captured are scopes of the store. The
way outwards from any scope of the store is finite and ends at the root scope, each scope on it
older than the one in front of it. So to follow it and to search it ends, `env-chain` has a text,
which ends with the name of the root scope, and `which-env` has one for every symbol. -/
theorem scopes_form_tree (h : Hosted logLevel s vs scopes) :
    (∀ id ∈ scopes, id < s.scopes.size) ∧
    (∀ closureId params body captured isMacro info,
      Present s vs (.closure closureId params body captured isMacro info) →
      captured < s.scopes.size) ∧
    ∀ id, id < s.scopes.size → ∃ ids, s.EndsAtRoot id ids ∧
      s.chain id = ids ∧
      (∀ name, s.lookup? id name = s.found? ids name ∧
        lookup id name s = (s.found? ids name).elim (.error (.fault (.unbound name)) s)
          fun found => .ok found.2 s) ∧
      (s.chainText ids = "repl" ∨ ∃ front, s.chainText ids = front ++ " <- " ++ "repl") ∧
      (∀ nested, SpecialForm.scopeChain.run nested [] id s =
        .ok (.done (.str (s.chainText ids))) s) ∧
      (∀ nested name, SpecialForm.scopesOf.run nested [.sym name] id s =
        .ok (.done (.str (SpecialForm.ownersText s id name))) s) ∧
      (NoMacro id s "env-chain" → ∀ passes room listId marked info,
        run (passes + 1) room (.eval (.list listId [.sym "env-chain"] marked info) id) s =
          .ok (.str (s.chainText ids)) s) ∧
      (NoMacro id s "which-env" → ∀ name passes room listId marked info,
        run (passes + 1) room (.eval (.list listId [.sym "which-env", .sym name] marked info) id)
          s = .ok (.str (SpecialForm.ownersText s id name)) s) := by
  obtain ⟨⟨hgood, hvalues, hscopes⟩, hs⟩ := h.rooted
  have hused {id : ScopeId} (hid : id = rootScope ∨ id < s.scopes.size) : id < s.scopes.size := by
    rcases hid with rfl | hid
    · exact hs.size_pos
    · exact hid
  refine ⟨fun id hid => hused (hscopes id hid), ?_, ?_⟩
  · intro closureId params body captured isMacro info hpresent
    cases hpresent.holds hgood hvalues (fun _ _ hlt => .inr hlt) (fun _ _ _ => trivial) with
    | closure _ _ hcaptured _ => exact hused hcaptured
  · intro id hid
    obtain ⟨ids, hids⟩ := hs.endsAtRoot hid
    have hchain := hids.outwards.chain_eq
    have hlookup (name : String) : s.lookup? id name = s.found? ids name :=
      hids.find hids.outwards.length_le name
    have htext (nested : Nested) : SpecialForm.scopeChain.run nested [] id s =
        .ok (.done (.str (s.chainText ids))) s := by
      rw [← hchain]
      rfl
    refine ⟨ids, hids, hchain, fun name => ⟨hlookup name, ?_⟩, hids.chainText_ends hs, htext,
      fun _ _ => rfl, ?_, ?_⟩
    · unfold lookup
      rw [get_bind, hlookup]
      cases s.found? ids name <;> rfl
    · intro hplain passes room listId marked info
      exact run_special_of_done hplain (show _ = some .scopeChain from rfl) htext passes room
        listId marked info
    · intro hplain name passes room listId marked info
      exact run_scopesOf hplain passes room listId marked info

/-- A closure that was made in a `let` in a scope that the host had made. -/
theorem scopes_form_tree_closure :
    ∃ s vs scopes closureId, Hosted 40 s vs scopes ∧ 1 ∈ scopes ∧
      Present s vs (.closure closureId [] (.sym "x") 2 false .nil) ∧
      s.EndsAtRoot 2 [2, 1, rootScope] ∧ ∀ passes room,
        run (passes + 1) room (.eval (.plainList 0 [.sym "env-chain"]) 2) s =
          .ok (.str "let <- host <- repl") s := by
  let form : Datum :=
    .list [.sym "let", .list [.sym "x", .int 1], .list [.sym "fn", .list [], .sym "x"]]
  have hchild : Interpreter.child "host" (Interpreter.create 40) = .ok 1 _ := rfl
  have hreadable : form.Readable := by
    have hx : (Datum.sym "x").Readable := .sym (by decide)
    have hbindings : (Datum.list [.sym "x", .int 1]).Readable :=
      .list (by simpa [hx] using .int (Nat.one_lt_pow (by decide) (by decide)))
    have hfn : (Datum.list [.sym "fn", .list [], .sym "x"]).Readable :=
      .list (by simpa [hx] using ⟨.sym (by decide), .list (by simp)⟩)
    exact .list (by simpa [hbindings, hfn] using .sym (by decide))
  have hform := ((@Hosted.create 40).child hchild).read hreadable rfl
  obtain ⟨s, vs, closureId, h, hmem, hchain, htext, hlookup⟩ : ∃ s vs closureId,
      Hosted 40 s vs [1, rootScope] ∧ .closure closureId [] (.sym "x") 2 false .nil ∈ vs ∧
        s.chain 2 = [2, 1, rootScope] ∧
        s.chainText [2, 1, rootScope] = "let <- host <- repl" ∧
        s.lookup? 2 "env-chain" = none :=
    ⟨_, _, _, hform.evaluate List.mem_cons_self List.mem_cons_self, List.mem_cons_self, rfl, rfl,
      rfl⟩
  have hpresent := Present.held (s := s) hmem
  have hplain : NoMacro 2 s "env-chain" := by
    intro owner value hfound
    cases hlookup.symm.trans hfound
  obtain ⟨-, hcaptured, htree⟩ := scopes_form_tree h
  obtain ⟨ids, hids, hchain', -, -, -, -, hrun, -⟩ := htree 2 (hcaptured _ _ _ _ _ _ hpresent)
  obtain rfl := hchain'.symm.trans hchain
  rw [htext] at hrun
  exact ⟨s, vs, _, closureId, h, List.mem_cons_self, hpresent, hids,
    fun passes room => hrun hplain passes room 0 false .nil⟩

end SmallLisp
