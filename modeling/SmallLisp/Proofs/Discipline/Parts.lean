import Mathlib.Tactic
import SmallLisp.Proofs.Discipline.Run
import SmallLisp.Proofs.Eval.Limit

/-!
# Jobs within a discipline

A job that may be done starts only jobs that may be done in the stores in which it starts them. So a
discipline holds not just at the end of an evaluation but in every store that the evaluation comes
to on its way. It may be a discipline that only some jobs keep, if these start none but each other.
-/

namespace SmallLisp

namespace Discipline

open Eval

variable {D : Discipline} {s s' s₁ : Store} {job job' : Job} {scope : ScopeId}

/-- From one store an evaluation comes to another one and may do a job there. -/
structure Comes (D : Discipline) (s : Store) (job : Job) (s' : Store) : Prop where
  good : D.Good s'
  later : D.later s s'
  job : D.JobHolds s' job

theorem Comes.trans (h : D.Comes s job s₁) (h' : D.Comes s₁ job' s') : D.Comes s job' s' :=
  ⟨h'.good, D.trans h.later h'.later, h'.job⟩

/-- Every run of one of the allowed jobs, if it may be done, keeps the discipline. -/
def RunsKeep (D : Discipline) (allowed : Job → Store → Prop) : Prop :=
  ∀ passes room s job, allowed job s → D.JobHolds s job → D.Keeps s (run passes room job) D.Holds

theorem runsKeep_all [D.Rewriting] (hroot : ∀ count, D.current count rootScope) :
    D.RunsKeep ⊤ :=
  fun passes room s job _ hjob => keeps_run hroot passes room s job hjob

variable {allowed : Job → Store → Prop}

/-- Runs of the allowed jobs keep a discipline when single passes do and when these jobs start none
but allowed ones. -/
theorem runsKeep_of_pass
    (hbegins : ∀ {job s job' s'}, allowed job s → job.Begins s job' s' → allowed job' s')
    (hpass : ∀ {nested limit job s}, allowed job s → D.NestedKeeps nested → D.JobHolds s job →
      D.Keeps s (pass nested limit job) D.StepHolds) : D.RunsKeep allowed := by
  classical
  intro passes
  induction passes with
  | zero => exact fun _ _ _ _ _ => keeps_throw trivial
  | succ passes ih =>
    intro room s job hallowed hjob
    -- The pass asks for allowed jobs only, so that refusing all others makes no difference.
    let guarded : Nested := fun job s =>
      if allowed job s then nestedRun passes room job s else .error .passesExhausted s
    have hguarded : D.NestedKeeps guarded := by
      intro s job hjob hs
      by_cases hallowed : allowed job s
      · simp only [guarded, if_pos hallowed]
        cases room with
        | zero => exact ⟨hs, D.refl s, trivial⟩
        | succ room => exact ih room s job hallowed hjob hs
      · simp only [guarded, if_neg hallowed]
        exact ⟨hs, D.refl s, trivial⟩
    have hagree : AgreeOn allowed (nestedRun passes room) guarded :=
      ⟨faithful_nestedRun passes room, fun hallowed => if_pos hallowed⟩
    have hfollows := hagree.pass (hbegins hallowed) passes
    have hkeeps : D.Keeps s (pass (nestedRun passes room) passes job) fun s₁ step =>
        D.StepHolds s₁ step ∧ ∀ job', step = .next job' → allowed job' s₁ := by
      intro hs
      have hpasses : D.Keeps s (pass guarded passes job) D.StepHolds :=
        hpass hallowed hguarded hjob
      have hkept := hpasses hs
      rw [hfollows.same] at hkept
      cases hrun : pass (nestedRun passes room) passes job s with
      | ok step s₁ =>
        rw [hrun] at hkept
        refine ⟨hkept.1, hkept.2.1, hkept.2.2, ?_⟩
        rintro job' rfl
        exact hfollows.asks hrun
      | error stop s₁ =>
        rw [hrun] at hkept
        exact hkept
    rw [run_succ]
    apply hkeeps.bind
    intro step s₁ _ hstep
    cases step with
    | done v => exact keeps_pure hstep.1
    | next job' => exact ih room s₁ job' (hstep.2 job' rfl) hstep.1

section

variable (hruns : D.RunsKeep allowed)
include hruns

theorem kept_of_endsWith {r : Result Value} (hallowed : allowed job s) (hs : D.Good s)
    (hjob : D.JobHolds s job) (h : EndsWith job s r) : D.Kept s D.Holds r := by
  obtain ⟨-, passes, room, rfl⟩ := h
  exact hruns passes room s job hallowed hjob hs

theorem kept_of_eval {form : Value} {r : Result Value} (hallowed : allowed (.eval form scope) s)
    (hs : D.Good s) (hform : D.Holds s form) (hscope : D.Current s scope)
    (h : EndsWith (.eval form scope) s r) : D.Kept s D.Holds r :=
  have hjob : D.JobHolds s (.eval form scope) := ⟨hform, hscope⟩
  kept_of_endsWith hruns hallowed hs hjob h

theorem kept_of_evaluated {forms vs rest : List Value}
    (hallowed : ∀ {vs form rest s₁}, Evaluated scope forms s vs (form :: rest) s₁ →
      allowed (.eval form scope) s₁)
    (hs : D.Good s) (hforms : D.AllHold s forms) (hscope : D.Current s scope)
    (h : Evaluated scope forms s vs rest s') :
    D.Good s' ∧ D.later s s' ∧ D.AllHold s' vs ∧ D.AllHold s' rest := by
  induction h with
  | none => exact ⟨hs, D.refl _, List.forall_mem_nil _, hforms⟩
  | next hform _ ih =>
    obtain ⟨hfirst, hforms⟩ := List.forall_mem_cons.1 hforms
    obtain ⟨hgood, hlater, hv⟩ := kept_of_eval hruns (hallowed .none) hs hfirst hscope hform
    obtain ⟨hgood', hlater', hvs, hrest⟩ := ih (fun hrest => hallowed (.next hform hrest)) hgood
      (AllHold.later hforms hlater) (hscope.later hlater)
    exact ⟨hgood', D.trans hlater hlater', List.forall_mem_cons.2 ⟨hv.later hlater', hvs⟩, hrest⟩

theorem kept_of_bound {items rest : List Value}
    (hallowed : ∀ {name form rest s₁}, Bound scope items s (.sym name :: form :: rest) s₁ →
      allowed (.eval form scope) s₁)
    (hs : D.Good s) (hitems : D.AllHold s items) (hscope : D.Current s scope)
    (h : Bound scope items s rest s') : D.Good s' ∧ D.later s s' ∧ D.AllHold s' rest := by
  induction h with
  | none => exact ⟨hs, D.refl _, hitems⟩
  | @next name _ v _ _ _ s₁ _ hform _ ih =>
    obtain ⟨hfirst, hitems⟩ := List.forall_mem_cons.1 (List.forall_mem_cons.1 hitems).2
    obtain ⟨hgood, hlater, hv⟩ := kept_of_eval hruns (hallowed .none) hs hfirst hscope hform
    have hscope := hscope.later hlater
    have hbind := D.bind hscope name v
    have hlater := D.trans hlater hbind
    obtain ⟨hgood', hlater', hrest⟩ := ih (fun hrest => hallowed (.next hform hrest))
      (hgood.bind hscope hv name) (AllHold.later hitems hlater) (hscope.later hbind)
    exact ⟨hgood', D.trans hlater hlater', hrest⟩

theorem kept_of_evaluatedEntries {entries rest : List (Value × Value)}
    (hkeys : ∀ {k v rest s₁}, EvaluatedEntries scope entries s ((k, v) :: rest) s₁ →
      allowed (.eval k scope) s₁)
    (hvalues : ∀ {k v key rest s₁ s₂}, EvaluatedEntries scope entries s ((k, v) :: rest) s₁ →
      EndsWith (.eval k scope) s₁ (.ok key s₂) → allowed (.eval v scope) s₂)
    (hs : D.Good s) (hentries : ∀ e ∈ entries, D.Holds s e.1 ∧ D.Holds s e.2)
    (hscope : D.Current s scope) (h : EvaluatedEntries scope entries s rest s') :
    D.Good s' ∧ D.later s s' ∧ ∀ e ∈ rest, D.Holds s' e.1 ∧ D.Holds s' e.2 := by
  induction h with
  | none => exact ⟨hs, D.refl _, hentries⟩
  | next hk hv hsome _ ih =>
    obtain ⟨⟨hkey, hvalue⟩, hentries⟩ := List.forall_mem_cons.1 hentries
    obtain ⟨hgood₁, hlater₁, -⟩ := kept_of_eval hruns (hkeys .none) hs hkey hscope hk
    have hscope := hscope.later hlater₁
    obtain ⟨hgood₂, hlater₂, -⟩ :=
      kept_of_eval hruns (hvalues .none hk) hgood₁ (hvalue.later hlater₁) hscope hv
    have hlater := D.trans hlater₁ hlater₂
    obtain ⟨hgood', hlater', hrest⟩ := ih (fun hrest => hkeys (.next hk hv hsome hrest))
      (fun hrest => hvalues (.next hk hv hsome hrest)) hgood₂
      (fun e he => ⟨(hentries e he).1.later hlater, (hentries e he).2.later hlater⟩)
      (hscope.later hlater₂)
    exact ⟨hgood', D.trans hlater hlater', hrest⟩

end

theorem comes_of_entered {form : Value} {call : MacroCall} {inner : ScopeId} (hs : D.Good s)
    (hform : D.Holds s form) (hscope : D.Current s scope) (h : Entered form scope s call inner s') :
    D.Comes s (.eval call.body inner) s' := by
  obtain ⟨hcall, henter⟩ := h
  obtain ⟨hbody, hcaptured, hargs⟩ := holds_macroCall hs hform hscope hcall
  have hrecord : D.Good _ ∧ D.later s _ ∧ True :=
    keeps_debug (D := D) expansionLogger ("Expanding macro " ++ call.name) hs
  obtain ⟨hgood, hlater, -⟩ := hrecord
  have hkept := keeps_enterCall (D.captured_mono (D.scopes_le hlater) hcaptured) call.params
    (hargs.later hlater) hgood
  rw [henter] at hkept
  obtain ⟨hgood', hlater', hinner⟩ := hkept
  exact ⟨hgood', D.trans hlater hlater', (hbody.later hlater).later hlater', hinner⟩

theorem comes_of_catching {handler : Value} {name : String} {cause : Fault} (hs : D.Good s)
    (hhandler : D.Holds s handler) (hscope : D.Current s scope) (hname : name ≠ "&")
    (hcause : D.StopHolds s (.fault cause)) :
    D.Comes s (.eval handler s.scopes.size) (s.catching scope name cause) := by
  have hrecord : D.Good _ ∧ D.later s _ ∧ True :=
    keeps_debug (D := D) SpecialForm.protectLogger
      ("try caught " ++ cause.kind ++ ": " ++ cause.message) hs
  obtain ⟨hgood, hlater, -⟩ := hrecord
  have hcaught := List.forall_mem_singleton.2 ((holds_caught hcause).later hlater)
  have hkept := keeps_enter (D.captured_of_current (hscope.later hlater)) "catch" [.sym name]
    hcaught hgood
  have henter : enter (some scope) "catch" [.sym name] [cause.caught] _ = _ :=
    enter_catch (s := s) hname cause
  rw [henter] at hkept
  obtain ⟨hgood', hlater', hinner⟩ := hkept
  exact ⟨hgood', D.trans hlater hlater', (hhandler.later hlater).later hlater', hinner⟩

theorem kept_of_bindings (hruns : D.RunsKeep allowed) {binders : Value}
    {items rest forms : List Value}
    (hallowed : ∀ {job s₁}, SpecialForm.Begins .bindings (binders :: forms) scope s job s₁ →
      allowed job s₁)
    (hs : D.Good s) (hbinders : D.Holds s binders) (hscope : D.Current s scope)
    (hitems : binders.sequence? = some items) (heven : items.length % 2 ≠ 1)
    (h : Bound s.scopes.size items (s.addScope (some scope) "let").2 rest s') :
    D.Good s' ∧ D.later s s' ∧ D.AllHold s' rest ∧ D.Current s' s.scopes.size := by
  have hinner := keeps_addScope (D.captured_of_current hscope) "let" hs
  obtain ⟨hgood, hlater, hinner⟩ := hinner
  obtain ⟨hgood', hlater', hrest⟩ :=
    kept_of_bound hruns (fun hbound => hallowed (.inl (.binding hitems heven hbound))) hgood
      (AllHold.later (hbinders.sequence hitems) hlater) hinner h
  exact ⟨hgood', D.trans hlater hlater', hrest, hinner.later hlater'⟩

theorem comes_of_starts_special (hruns : D.RunsKeep allowed) {form : SpecialForm}
    {parts : List Value}
    (hallowed : ∀ {job s₁}, form.Begins parts scope s job s₁ → allowed job s₁) (hs : D.Good s)
    (hparts : D.AllHold s parts) (hscope : D.Current s scope)
    (h : form.Starts parts scope s job s') : D.Comes s job s' := by
  cases h with
  | value => exact ⟨hs, D.refl s, hparts _ (by simp), hscope⟩
  | binding hitems heven hbound =>
    obtain ⟨hgood, hlater, hrest, hinner⟩ :=
      kept_of_bindings hruns hallowed hs (hparts _ List.mem_cons_self) hscope hitems heven hbound
    exact ⟨hgood, hlater, hrest _ (by simp), hinner⟩
  | bodyForm hitems heven hbound hforms =>
    obtain ⟨hbinders, hbody⟩ := List.forall_mem_cons.1 hparts
    obtain ⟨hgood, hlater, -, hinner⟩ :=
      kept_of_bindings hruns hallowed hs hbinders hscope hitems heven hbound
    obtain ⟨hgood', hlater', -, hrest⟩ := kept_of_evaluated hruns
      (fun hforms => hallowed (.inl (.bodyForm hitems heven hbound hforms))) hgood
      (AllHold.later hbody hlater) hinner hforms
    exact ⟨hgood', D.trans hlater hlater', hrest _ List.mem_cons_self, hinner.later hlater'⟩
  | form hforms =>
    obtain ⟨hgood, hlater, -, hrest⟩ := kept_of_evaluated hruns
      (fun hforms => hallowed (.inl (.form hforms))) hs hparts hscope hforms
    exact ⟨hgood, hlater, hrest _ List.mem_cons_self, hscope.later hlater⟩
  | condition => exact ⟨hs, D.refl s, hparts _ List.mem_cons_self, hscope⟩
  | consequent hshape hcondition _ =>
    obtain ⟨hgood, hlater, -⟩ := kept_of_eval hruns (hallowed (.inl (.condition hshape))) hs
      (hparts _ List.mem_cons_self) hscope hcondition
    exact ⟨hgood, hlater, (hparts _ (by simp)).later hlater, hscope.later hlater⟩
  | alternative hcondition _ =>
    obtain ⟨hgood, hlater, -⟩ := kept_of_eval hruns (hallowed (.inl (.condition le_rfl))) hs
      (hparts _ List.mem_cons_self) hscope hcondition
    exact ⟨hgood, hlater, (hparts _ (by simp)).later hlater, hscope.later hlater⟩
  | @template form _ _ _ _ hcode =>
    have hkept := keeps_code form (hparts _ List.mem_cons_self) hs
    rw [hcode] at hkept
    obtain ⟨hgood, hlater, hcode⟩ := hkept
    exact ⟨hgood, hlater, hcode, hscope.later hlater⟩
  | expansion => exact ⟨hs, D.refl s, hparts _ List.mem_cons_self, hscope⟩
  | unguarded => exact ⟨hs, D.refl s, hparts _ List.mem_cons_self, hscope⟩
  | handler hclause hname hbody =>
    have hguarded := hallowed (.inr (.body (Option.isSome_iff_exists.2 ⟨_, hclause⟩)))
    obtain ⟨hgood, hlater, hcause⟩ :=
      kept_of_eval hruns hguarded hs (hparts _ List.mem_cons_self) hscope hbody
    have hhandler := holds_handler (hparts _ (by simp)) hclause
    have hcomes :=
      comes_of_catching hgood (hhandler.later hlater) (hscope.later hlater) hname hcause
    exact ⟨hcomes.good, D.trans hlater hcomes.later, hcomes.job⟩

theorem comes_of_guards_special {form : SpecialForm} {parts : List Value} (hs : D.Good s)
    (hparts : D.AllHold s parts) (hscope : D.Current s scope)
    (h : form.Guards parts scope s job s') : D.Comes s job s' := by
  cases h with
  | body => exact ⟨hs, D.refl s, hparts _ List.mem_cons_self, hscope⟩

theorem Holds.entries {id : Identity} {entries : List (Value × Value)} {marked : Bool}
    {info : Value} (h : D.Holds s (.map id entries marked info)) :
    ∀ e ∈ entries, D.Holds s e.1 ∧ D.Holds s e.2 := by
  cases h with
  | map hkeys hvalues _ _ => exact fun e he => ⟨hkeys e he, hvalues e he⟩

theorem kept_of_expanded (hruns : D.RunsKeep allowed) {form expanded : Value} {inner : ScopeId}
    {call : MacroCall} (hallowed : allowed (.eval call.body inner) s₁) (hs : D.Good s)
    (hform : D.Holds s form) (hscope : D.Current s scope)
    (hentered : Entered form scope s call inner s₁)
    (hbody : EndsWith (.eval call.body inner) s₁ (.ok expanded s')) :
    D.Good s' ∧ D.later s s' ∧ D.Holds s' expanded := by
  have hcomes := comes_of_entered hs hform hscope hentered
  obtain ⟨hgood, hlater, hexpanded⟩ := kept_of_endsWith hruns hallowed hcomes.good hcomes.job hbody
  exact ⟨hgood, D.trans hcomes.later hlater, hexpanded⟩

theorem comes_of_starts (hroot : ∀ count, D.current count rootScope) (hruns : D.RunsKeep allowed)
    (hallowed : ∀ {job' s₁}, job.Begins s job' s₁ → allowed job' s₁) (hs : D.Good s)
    (hjob : D.JobHolds s job) (h : job.Starts s job' s') : D.Comes s job' s' := by
  cases h with
  | macroBody hentered => exact comes_of_entered hs hjob.1 hjob.2 hentered
  | expandBody hentered => exact comes_of_entered hs hjob.1 hjob.2 hentered
  | expanded hentered hbody =>
    obtain ⟨hgood, hlater, hexpanded⟩ := kept_of_expanded hruns
      (hallowed (.inl (.macroBody hentered))) hs hjob.1 hjob.2 hentered hbody
    exact ⟨hgood, hlater, hexpanded, hjob.2.later hlater⟩
  | expandOn hentered hbody =>
    obtain ⟨hgood, hlater, hexpanded⟩ := kept_of_expanded hruns
      (hallowed (.inl (.expandBody hentered))) hs hjob.1 hjob.2 hentered hbody
    exact ⟨hgood, hlater, hexpanded, hjob.2.later hlater⟩
  | special hplain hname hstarts =>
    have hparts := (List.forall_mem_cons.1 (hjob.1.sequence rfl)).2
    exact comes_of_starts_special hruns
      (fun hbegins => hallowed (Job.begins_of_special hplain hname hbegins)) hs hparts hjob.2
      hstarts
  | head _ _ => exact ⟨hs, D.refl s, hjob.1.sequence rfl _ List.mem_cons_self, hjob.2⟩
  | operand hplain hname hhead hargs =>
    obtain ⟨hfirst, hparts⟩ := List.forall_mem_cons.1 (hjob.1.sequence rfl)
    obtain ⟨hgood, hlater, -⟩ :=
      kept_of_eval hruns (hallowed (.inl (.head hplain hname))) hs hfirst hjob.2 hhead
    have hscope := hjob.2.later hlater
    obtain ⟨hgood', hlater', -, hrest⟩ := kept_of_evaluated hruns
      (fun hargs => hallowed (.inl (.operand hplain hname hhead hargs))) hgood
      (AllHold.later hparts hlater) hscope hargs
    exact ⟨hgood', D.trans hlater hlater', hrest _ List.mem_cons_self, hscope.later hlater'⟩
  | application hplain hname hhead hargs =>
    obtain ⟨hfirst, hparts⟩ := List.forall_mem_cons.1 (hjob.1.sequence rfl)
    obtain ⟨hgood, hlater, hf⟩ :=
      kept_of_eval hruns (hallowed (.inl (.head hplain hname))) hs hfirst hjob.2 hhead
    obtain ⟨hgood', hlater', hvs, -⟩ := kept_of_evaluated hruns
      (fun hargs => hallowed (.inl (.operand hplain hname hhead hargs))) hgood
      (AllHold.later hparts hlater) (hjob.2.later hlater) hargs
    exact ⟨hgood', D.trans hlater hlater', hf.later hlater', hvs⟩
  | element hitems =>
    obtain ⟨hgood, hlater, -, hrest⟩ := kept_of_evaluated hruns
      (fun hitems => hallowed (.inl (.element hitems))) hs (hjob.1.sequence rfl) hjob.2 hitems
    exact ⟨hgood, hlater, hrest _ List.mem_cons_self, hjob.2.later hlater⟩
  | key hentries =>
    obtain ⟨hgood, hlater, hrest⟩ := kept_of_evaluatedEntries hruns
      (fun hentries => hallowed (.inl (.key hentries)))
      (fun hentries hk => hallowed (.inl (.entry hentries hk))) hs hjob.1.entries hjob.2 hentries
    exact ⟨hgood, hlater, (hrest _ List.mem_cons_self).1, hjob.2.later hlater⟩
  | entry hentries hk =>
    obtain ⟨hgood, hlater, hrest⟩ := kept_of_evaluatedEntries hruns
      (fun hentries => hallowed (.inl (.key hentries)))
      (fun hentries hk => hallowed (.inl (.entry hentries hk))) hs hjob.1.entries hjob.2 hentries
    obtain ⟨hkey, hvalue⟩ := hrest _ List.mem_cons_self
    have hscope := hjob.2.later hlater
    obtain ⟨hgood', hlater', -⟩ :=
      kept_of_eval hruns (hallowed (.inl (.key hentries))) hgood hkey hscope hk
    exact ⟨hgood', D.trans hlater hlater', hvalue.later hlater', hscope.later hlater'⟩
  | @closureBody _ params body _ captured inner _ args _ _ henter =>
    cases hjob.1 with
    | closure _ hbody hcaptured _ =>
      have hkept := keeps_enterCall hcaptured params hjob.2 hs
      rw [henter] at hkept
      obtain ⟨hgood, hlater, hinner⟩ := hkept
      exact ⟨hgood, hlater, hbody.later hlater, hinner⟩
  | @applied _ _ f arg _ more spread _ _ hspread =>
    obtain ⟨hf, hargs⟩ := List.forall_mem_cons.1 hjob.2
    have hkept := keeps_elements "apply" (hargs _ (List.getLast_mem (by simp))) hs
    rw [hspread] at hkept
    obtain ⟨hgood, hlater, hspread⟩ := hkept
    refine ⟨hgood, hlater, hf.later hlater, fun v hv => ?_⟩
    rcases List.mem_append.1 hv with hv | hv
    · exact (hargs v (List.mem_of_mem_dropLast hv)).later hlater
    · exact hspread v hv
  | @swapped _ _ f _ extra a _ =>
    obtain ⟨hcell, hargs⟩ := List.forall_mem_cons.1 hjob.2
    obtain ⟨hf, hextra⟩ := List.forall_mem_cons.1 hargs
    have hcontent : D.Holds s ((s.content? a).getD .nil) := by
      cases hcell with
      | atom ha =>
        have hkept : D.Good s ∧ D.later s s ∧ D.Holds s _ := keeps_read ha hs
        exact hkept.2.2
    exact ⟨hs, D.refl s, hf, List.forall_mem_cons.2 ⟨hcontent, hextra⟩⟩
  | evaluated => exact ⟨hs, D.refl s, hjob.2 _ List.mem_cons_self, hroot _⟩

theorem comes_of_guards (hs : D.Good s) (hjob : D.JobHolds s job)
    (h : job.Guards s job' s') : D.Comes s job' s' := by
  cases h with
  | special _ _ hguards =>
    have hparts := (List.forall_mem_cons.1 (hjob.1.sequence rfl)).2
    exact comes_of_guards_special hs hparts hjob.2 hguards

/-- An evaluation comes to nothing but good stores and jobs that may be done in them. -/
theorem comes_of_involves (hroot : ∀ count, D.current count rootScope)
    (hbegins : ∀ {job s job' s'}, allowed job s → job.Begins s job' s' → allowed job' s')
    (hruns : D.RunsKeep allowed) (hallowed : allowed job s) (hs : D.Good s)
    (hjob : D.JobHolds s job) (h : job.Involves s job' s') : D.Comes s job' s' := by
  induction h with
  | refl => exact ⟨hs, D.refl _, hjob⟩
  | starts hstarts _ ih =>
    have hcomes := comes_of_starts hroot hruns (hbegins hallowed) hs hjob hstarts
    exact hcomes.trans (ih (hbegins hallowed (.inl hstarts)) hcomes.good hcomes.job)
  | guards hguards _ ih =>
    have hcomes := comes_of_guards hs hjob hguards
    exact hcomes.trans (ih (hbegins hallowed (.inr hguards)) hcomes.good hcomes.job)

end Discipline

end SmallLisp
