import Mathlib.Data.List.DropRight
import Mathlib.Data.List.TakeWhile
import Mathlib.Tactic
import SmallLisp.Proofs.Eval.Frame
import SmallLisp.Proofs.Interpreter.Outcome

/-!
# Sessions at the console

A session is a conversation: each line gets one reply, in the store that the lines before it have
left, whatever became of them. The console holds one turn for each line and returns at the end of
the input.
-/

namespace SmallLisp.Console

open Eval Interpreter

variable {prompt line : String} {s s' s'' : Store}

def Blank (line : String) : Prop := ∀ c ∈ line.toList, Text.isBlank c = true

instance (line : String) : Decidable (Blank line) :=
  decidable_of_iff (line.toList.all Text.isBlank = true) List.all_eq_true

/-- What the first form of a line comes to: it cannot be read, evaluated or printed, or it has a
text. What was done before a failure stays done. -/
inductive Comes (line : String) (s : Store) : Except Stop String → Store → Prop
  | unread {fault : ReadFault} :
      SmallLisp.readForm line = .error fault → Comes line s (.error (.ofReadFault fault)) s
  | unevaluated {d : Datum} {form : Value} {s₁ s' : Store} {stop : Stop} :
      SmallLisp.readForm line = .ok d → ofDatum d s = .ok form s₁ →
      evaluate form rootScope s₁ = .error stop s' → Comes line s (.error stop) s'
  | printed {d : Datum} {form v : Value} {s₁ s' : Store} {outcome : Except Stop String} :
      SmallLisp.readForm line = .ok d → ofDatum d s = .ok form s₁ →
      evaluate form rootScope s₁ = .ok v s' → s'.print .readable v = outcome →
      Comes line s outcome s'

theorem exists_comes (line : String) (s : Store) : ∃ outcome s', Comes line s outcome s' := by
  cases hread : SmallLisp.readForm line with
  | error fault => exact ⟨_, s, .unread hread⟩
  | ok d =>
    obtain ⟨form, s₁, hform⟩ : ∃ form s₁, ofDatum d s = .ok form s₁ := ⟨_, _, rfl⟩
    cases hvalue : evaluate form rootScope s₁ with
    | error stop s₂ => exact ⟨_, s₂, .unevaluated hread hform hvalue⟩
    | ok v s₂ => exact ⟨_, s₂, .printed hread hform hvalue rfl⟩

theorem rep_of_comes {outcome : Except Stop String} (h : Comes line s outcome s') :
    rep line s = ofExcept outcome s' := by
  unfold rep Eval.readForm
  cases h with
  | unread hread =>
    simp only [hread]
    rfl
  | unevaluated hread hform hvalue =>
    simp only [hread]
    exact (bind_of_ok hform).trans (bind_of_error hvalue)
  | printed hread hform hvalue hprint =>
    simp only [hread]
    refine (bind_of_ok hform).trans ((bind_of_ok hvalue).trans ?_)
    exact hprint ▸ rfl

theorem Comes.unique {outcome outcome' : Except Stop String} (h : Comes line s outcome s')
    (h' : Comes line s outcome' s'') : outcome = outcome' ∧ s' = s'' := by
  have heq := (rep_of_comes h).symm.trans (rep_of_comes h')
  cases outcome <;> cases outcome' <;> cases heq <;> exact ⟨rfl, rfl⟩

/-- What is logged about a line that has failed, if the console goes on behind it. -/
def report? : Stop → Option String
  | .fault cause => some (cause.kind ++ ": " ++ cause.message)
  | .stackExhausted => some exhaustedMessage
  | .host _ => none
  | .passesExhausted => none

/-- The reply to a line: none, the text of a value or a record in the log. -/
inductive Reply where
  | silence
  | value (text : String)
  | failure (message : String)

def Reply.text : Reply → String
  | .value text => text ++ "\n"
  | .silence | .failure _ => ""

def Reply.records : Reply → List LogRecord
  | .failure message => [⟨errorLevel, logger, message⟩]
  | .silence | .value _ => []

/-- The reply to a line that is entered in a store, and the store that it leaves. -/
inductive Replies (line : String) (s : Store) : Reply → Store → Prop
  | blank : Blank line → Replies line s .silence s
  | value {text : String} {s' : Store} :
      ¬ Blank line → Comes line s (.ok text) s' → Replies line s (.value text) s'
  | failure {stop : Stop} {message : String} {s' : Store} :
      ¬ Blank line → Comes line s (.error stop) s' → report? stop = some message →
      Replies line s (.failure message) (s'.record errorLevel logger message)

theorem Replies.unique {reply reply' : Reply} (h : Replies line s reply s')
    (h' : Replies line s reply' s'') : reply = reply' ∧ s' = s'' := by
  cases h with
  | blank hblank =>
    cases h' with
    | blank => exact ⟨rfl, rfl⟩
    | value hnot | failure hnot => exact absurd hblank hnot
  | value hnot hcomes =>
    cases h' with
    | blank hblank => exact absurd hblank hnot
    | value _ hcomes' =>
      obtain ⟨heq, rfl⟩ := hcomes.unique hcomes'
      exact ⟨congrArg _ (Except.ok.inj heq), rfl⟩
    | failure _ hcomes' => cases (hcomes.unique hcomes').1
  | failure hnot hcomes hreport =>
    cases h' with
    | blank hblank => exact absurd hblank hnot
    | value _ hcomes' => cases (hcomes.unique hcomes').1
    | failure _ hcomes' hreport' =>
      obtain ⟨heq, rfl⟩ := hcomes.unique hcomes'
      obtain rfl := Except.error.inj heq
      obtain rfl := Option.some.inj (hreport.symm.trans hreport')
      exact ⟨rfl, rfl⟩

theorem isEmpty_trim_iff (cs : List Char) :
    (Text.trim cs).isEmpty = true ↔ ∀ c ∈ cs, Text.isBlank c = true := by
  have htrim : Text.trim cs = (cs.dropWhile Text.isBlank).rdropWhile Text.isBlank := rfl
  rw [htrim, List.isEmpty_iff, List.rdropWhile_eq_nil_iff, ← List.dropWhile_eq_nil_iff,
    List.dropWhile_idempotent, List.dropWhile_eq_nil_iff]

/-- What the console shows for a line with this reply. -/
def Reply.shown? : Reply → Option String
  | .value text => some text
  | .silence | .failure _ => none

theorem evalLine_of_replies {reply : Reply} (h : Replies line s reply s') :
    evalLine line s = .ok reply.shown? s' := by
  unfold evalLine
  cases h with
  | blank hblank =>
    rw [if_pos ((isEmpty_trim_iff _).2 hblank)]
    rfl
  | value hnot hcomes =>
    rw [if_neg (mt (isEmpty_trim_iff _).1 hnot), rep_of_comes hcomes]
    rfl
  | @failure stop _ _ hnot hcomes hreport =>
    rw [if_neg (mt (isEmpty_trim_iff _).1 hnot), rep_of_comes hcomes]
    cases stop with
    | fault | stackExhausted => exact Option.some.inj hreport ▸ rfl
    | host | passesExhausted => cases hreport

def errors (s : Store) : List LogRecord := s.log.toList.filter fun r => errorLevel ≤ r.level

theorem frame_rep (line : String) (s : Store) :
    (∃ printed, (storeAfter (rep line s)).output = s.output ++ printed) ∧
      LogFrame s (storeAfter (rep line s)) := by
  set D := Discipline.frame 0 fun _ => True
  have hcurrent (count : Nat) : D.current count rootScope := .inl trivial
  have hkeeps : D.Keeps s (rep line) fun _ _ => True := by
    apply (Discipline.keeps_readForm line).bind
    intro form s₁ _ hform
    have hjob : D.JobHolds s₁ (.eval form rootScope) := ⟨hform, hcurrent _⟩
    apply (Discipline.keeps_run hcurrent _ _ s₁ _ hjob).bind
    exact fun v s₂ _ _ => Discipline.keeps_print _ v
  have hlater := later_storeAfter (hkeeps (Discipline.good_frame _ (Nat.zero_le _)))
  exact ⟨hlater.1.output, hlater.2.2⟩

theorem LogFrame.errors_eq (h : LogFrame s s') : errors s' = errors s := by
  obtain ⟨-, records, hlog, hrecords⟩ := h
  unfold errors
  have hnone : records.filter (fun r => errorLevel ≤ r.level) = [] := by
    refine List.filter_eq_nil_iff.2 fun r hr => ?_
    rw [hrecords r hr]
    decide
  rw [hlog, List.filter_append, hnone, List.append_nil]

theorem Replies.effect {reply : Reply} (h : Replies line s reply s') :
    (∃ printed, s'.output = s.output ++ printed) ∧ s'.logLevel = s.logLevel ∧
      errors s' = errors s ++ if s.logLevel ≤ errorLevel then reply.records else [] := by
  have hstore {outcome : Except Stop String} {s' : Store} (hcomes : Comes line s outcome s') :
      (∃ printed, s'.output = s.output ++ printed) ∧ LogFrame s s' := by
    have hframe := frame_rep line s
    rw [rep_of_comes hcomes] at hframe
    cases outcome <;> exact hframe
  cases h with
  | blank => exact ⟨⟨"", String.append_empty.symm⟩, rfl, by simp [Reply.records]⟩
  | value _ hcomes =>
    obtain ⟨hout, hlog⟩ := hstore hcomes
    exact ⟨hout, hlog.1, by simp [Reply.records, LogFrame.errors_eq hlog]⟩
  | @failure _ message s₁ _ hcomes _ =>
    obtain ⟨hout, hlog⟩ := hstore hcomes
    rw [← hlog.1, ← LogFrame.errors_eq hlog]
    unfold Store.record
    split_ifs
    · exact ⟨hout, rfl, by simp [errors, Reply.records]⟩
    · exact ⟨hout, rfl, by simp⟩

/-- A line with what the program prints on account of it and the reply to it. -/
structure Turn where
  line : String
  printed : String
  reply : Reply

def Turn.text (prompt : String) (turn : Turn) : String := prompt ++ turn.printed ++ turn.reply.text

/-- A session takes one store to another one. Each turn begins in the store that the turns before it
have left: the console prompts, the line gets its reply and the text of the reply is written. -/
inductive Session (prompt : String) : Store → List Turn → Store → Prop
  | nil {s : Store} : Session prompt s [] s
  | cons {s s₁ s' : Store} {turn : Turn} {turns : List Turn} :
      Replies turn.line (s.write prompt) turn.reply s₁ →
      s₁.output = s.output ++ prompt ++ turn.printed →
      Session prompt (s₁.write turn.reply.text) turns s' →
      Session prompt s (turn :: turns) s'

theorem write_empty (s : Store) : s.write "" = s := by
  unfold Store.write
  rw [String.append_empty]

theorem loop_cons {reply : Reply} {lines : List String}
    (h : Replies line (s.write prompt) reply s') :
    loop prompt (line :: lines) s = loop prompt lines (s'.write reply.text) := by
  have hwrite : write prompt s = .ok () (s.write prompt) := rfl
  rw [loop, bind_of_ok hwrite, bind_of_ok (evalLine_of_replies h)]
  cases reply with
  | value text => rfl
  | silence | failure => exact congrArg _ (write_empty s').symm

theorem Session.loop_eq {turns : List Turn} (h : Session prompt s turns s') :
    loop prompt (turns.map (·.line)) s = .ok () ((s'.write prompt).write "\n") := by
  induction h with
  | nil => rfl
  | cons hreplies _ _ ih =>
    rw [List.map_cons, loop_cons hreplies]
    exact ih

theorem Session.unique {turns turns' : List Turn} (h : Session prompt s turns s')
    (h' : Session prompt s turns' s'') (hlines : turns.map (·.line) = turns'.map (·.line)) :
    turns = turns' ∧ s' = s'' := by
  induction h generalizing turns' with
  | nil =>
    obtain rfl := List.map_eq_nil_iff.1 hlines.symm
    cases h'
    exact ⟨rfl, rfl⟩
  | @cons s s₁ s' turn turns hreplies hprinted _ ih =>
    cases h' with
    | nil => cases hlines
    | @cons _ s₂ _ turn' turns' hreplies' hprinted' hrest =>
      obtain ⟨line, printed, reply⟩ := turn
      obtain ⟨line', printed', reply'⟩ := turn'
      obtain ⟨rfl, hrests⟩ := List.cons.inj hlines
      obtain ⟨rfl, rfl⟩ := hreplies.unique hreplies'
      obtain rfl : printed = printed' :=
        String.append_right_inj _ |>.1 (hprinted.symm.trans hprinted')
      obtain ⟨rfl, rfl⟩ := ih hrest hrests
      exact ⟨rfl, rfl⟩

theorem Session.output_eq {turns : List Turn} (h : Session prompt s turns s') :
    s'.output = s.output ++ String.join (turns.map (Turn.text prompt)) := by
  induction h with
  | nil => simp
  | @cons s s₁ s' turn turns _ hprinted _ ih =>
    rw [ih, List.map_cons, String.join_cons]
    simp only [Store.write, hprinted, Turn.text, String.append_assoc]

theorem Session.errors_eq {turns : List Turn} (h : Session prompt s turns s') :
    errors s' = errors s ++
      if s.logLevel ≤ errorLevel then turns.flatMap (·.reply.records) else [] := by
  induction h with
  | nil => simp
  | @cons s s₁ s' turn turns hreplies _ _ ih =>
    obtain ⟨-, hlevel, herrors⟩ := hreplies.effect
    have hlevel : (s₁.write turn.reply.text).logLevel = s.logLevel := hlevel
    have herrors : errors (s₁.write turn.reply.text) = errors s ++
      if s.logLevel ≤ errorLevel then turn.reply.records else [] := herrors
    rw [ih, herrors, hlevel, List.append_assoc, List.flatMap_cons]
    split_ifs <;> rfl

/-- No line of a session meets the limit on the digits of integers below the language, and none is
evaluated forever. -/
def Settles (prompt : String) (lines : List String) (s : Store) : Prop :=
  ∀ turns line rest s₁, lines = turns.map Turn.line ++ line :: rest → Session prompt s turns s₁ →
    ¬ Blank line → ∀ stop s₂, Comes line (s₁.write prompt) (.error stop) s₂ →
      stop ≠ .passesExhausted ∧ ∀ digits, stop ≠ .host (.digitLimit digits)

/-- The limit on the digits of integers is the only one that a line can meet below the language. -/
theorem exists_report {stop : Stop} (h : Comes line s (.error stop) s')
    (hpasses : stop ≠ .passesExhausted) (hdigits : ∀ digits, stop ≠ .host (.digitLimit digits)) :
    ∃ message, report? stop = some message := by
  cases stop with
  | fault | stackExhausted => exact ⟨_, rfl⟩
  | passesExhausted => exact absurd rfl hpasses
  | host limit =>
    obtain ⟨digits, rfl, -⟩ | ⟨rfl, -⟩ := overlong_of_rep (rep_of_comes h)
    · exact absurd rfl (hdigits _)
    · exact absurd rfl (hdigits _)

theorem exists_replies (h : ¬ Blank line → ∀ stop s₁, Comes line s (.error stop) s₁ →
    stop ≠ .passesExhausted ∧ ∀ digits, stop ≠ .host (.digitLimit digits)) :
    ∃ reply s', Replies line s reply s' := by
  by_cases hblank : Blank line
  · exact ⟨_, s, .blank hblank⟩
  · obtain ⟨outcome, s₁, hcomes⟩ := exists_comes line s
    cases outcome with
    | ok text => exact ⟨_, s₁, .value hblank hcomes⟩
    | error stop =>
      obtain ⟨hpasses, hdigits⟩ := h hblank stop s₁ hcomes
      obtain ⟨message, hreport⟩ := exists_report hcomes hpasses hdigits
      exact ⟨_, _, .failure hblank hcomes hreport⟩

theorem Replies.settled {reply : Reply} {stop : Stop} (h : Replies line s reply s')
    (hblank : ¬ Blank line) (hcomes : Comes line s (.error stop) s'') :
    stop ≠ .passesExhausted ∧ ∀ digits, stop ≠ .host (.digitLimit digits) := by
  cases h with
  | blank h => exact absurd h hblank
  | value _ h => cases (h.unique hcomes).1
  | failure _ h hreport =>
    obtain rfl := Except.error.inj (h.unique hcomes).1
    constructor
    · rintro rfl
      cases hreport
    · rintro digits rfl
      cases hreport

/-- A session can be held exactly when each line settles in its turn. -/
theorem settles_iff {lines : List String} : Settles prompt lines s ↔
    ∃ turns s', turns.map Turn.line = lines ∧ Session prompt s turns s' := by
  constructor
  · intro h
    induction lines generalizing s with
    | nil => exact ⟨[], s, rfl, .nil⟩
    | cons line lines ih =>
      obtain ⟨reply, s₁, hreplies⟩ := exists_replies (h [] line lines s rfl .nil)
      obtain ⟨⟨printed, hprinted⟩, -⟩ := hreplies.effect
      have hrest : Settles prompt lines (s₁.write reply.text) := by
        rintro turns line' rest s₂ rfl hsession
        exact h (⟨line, printed, reply⟩ :: turns) line' rest s₂ rfl
          (.cons hreplies hprinted hsession)
      obtain ⟨turns, s', rfl, hsession⟩ := ih hrest
      exact ⟨⟨line, printed, reply⟩ :: turns, s', rfl, .cons hreplies hprinted hsession⟩
  · rintro ⟨turns, s', rfl, hsession⟩ turns' line rest s₁ hlines hbefore hblank stop s₂ hcomes
    induction hsession generalizing turns' with
    | nil => cases turns' <;> cases hlines
    | @cons s s₃ s' turn turns hreplies hprinted _ ih =>
      cases hbefore with
      | nil =>
        obtain ⟨rfl, -⟩ := List.cons.inj hlines
        exact hreplies.settled hblank hcomes
      | @cons _ s₄ _ turn' turns' hreplies' _ hbefore =>
        obtain ⟨hline, hlines⟩ := List.cons.inj hlines
        rw [← hline] at hreplies'
        obtain ⟨hreply, rfl⟩ := hreplies.unique hreplies'
        rw [← hreply] at hbefore
        exact ih turns' hlines hbefore

/-- Two lines are the same or have the same form in front. -/
def SameForm (line line' : String) : Prop :=
  line = line' ∨ ∃ used rest rest' d, Form used d ∧
    Token.lex line.toList = used ++ rest ∧ Token.lex line'.toList = used ++ rest'

theorem lex_of_blank {cs : List Char} (h : ∀ c ∈ cs, Text.isBlank c = true) :
    Token.lex cs = [] := by
  induction cs with
  | nil => exact Token.lex_of_next?_eq_none (by simp [Token.next?, Token.skipSeparators])
  | cons c cs ih =>
    obtain ⟨hc, hcs⟩ := List.forall_mem_cons.1 h
    rw [Token.lex_separator (by simp [Token.isSeparator, hc])]
    exact ih hcs

theorem not_blank_of_form {used rest : List Token} {d : Datum} (hform : Form used d)
    (hline : Token.lex line.toList = used ++ rest) : ¬ Blank line := by
  intro hblank
  rw [lex_of_blank hblank] at hline
  exact hform.ne_nil (List.append_eq_nil_iff.1 hline.symm).1

theorem readForm_of_form {used rest : List Token} {d : Datum} (hform : Form used d)
    (hline : Token.lex line.toList = used ++ rest) : SmallLisp.readForm line = .ok d := by
  rw [readForm_eq_consume, hline, hform.reads]
  rfl

theorem evalLine_congr {line' : String} (h : SameForm line line') :
    evalLine line = evalLine line' := by
  obtain rfl | ⟨used, rest, rest', d, hform, hline, hline'⟩ := h
  · rfl
  · funext s
    have hrep : rep line s = rep line' s := by
      unfold rep Eval.readForm
      rw [readForm_of_form hform hline, readForm_of_form hform hline']
    unfold evalLine
    rw [if_neg (mt (isEmpty_trim_iff _).1 (not_blank_of_form hform hline)),
      if_neg (mt (isEmpty_trim_iff _).1 (not_blank_of_form hform hline')), hrep]

theorem loop_congr {lines lines' : List String} (h : List.Forall₂ SameForm lines lines') :
    loop prompt lines = loop prompt lines' := by
  induction h with
  | nil => rfl
  | cons hline _ ih => rw [loop, loop, evalLine_congr hline, ih]

/-- If no line meets the limit on digits below the language and none is evaluated forever, the
console holds a session over all lines and returns at the end of the input. There is one session
only: a line is answered in the store that the lines before it have left, with the text of the value
of its first form exactly if it is not blank and this form is read, evaluated and printed. Besides
what the lines print, the output has the prompt before each line, the texts of the values, each with
a line end, and at last a prompt and a line end; the log has one error for each line that is not
blank and has no text. What stands behind the first form of a line makes no difference. -/
theorem loop_holds_session {lines : List String} (h : Settles prompt lines s) :
    ∃ turns s', turns.map Turn.line = lines ∧ Session prompt s turns s' ∧
      (∀ turns' s'', turns'.map Turn.line = lines → Session prompt s turns' s'' →
        turns' = turns ∧ s'' = s') ∧
      loop prompt lines s = .ok () ((s'.write prompt).write "\n") ∧
      ((s'.write prompt).write "\n").output =
        s.output ++ String.join (turns.map (Turn.text prompt)) ++ prompt ++ "\n" ∧
      errors ((s'.write prompt).write "\n") = errors s ++
        (if s.logLevel ≤ errorLevel then turns.flatMap (·.reply.records) else []) ∧
      ∀ lines', List.Forall₂ SameForm lines lines' →
        loop prompt lines' s = .ok () ((s'.write prompt).write "\n") := by
  obtain ⟨turns, s', rfl, hsession⟩ := settles_iff.1 h
  refine ⟨turns, s', rfl, hsession, ?_, hsession.loop_eq, ?_, hsession.errors_eq, ?_⟩
  · intro turns' s'' hlines hsession'
    exact hsession'.unique hsession hlines
  · rw [← hsession.output_eq]
    rfl
  · intro lines' hlines
    rw [← loop_congr hlines]
    exact hsession.loop_eq

/-- A blank line, a stray bracket and a form with text behind it: the form is answered, and the
bracket leaves an error in the log. -/
theorem loop_holds_short_session :
    Settles "> " ["\n", ")\n", "nil (\n"] (Store.empty errorLevel) ∧ ∃ s',
      loop "> " ["\n", ")\n", "nil (\n"] (Store.empty errorLevel) = .ok () s' ∧
        s'.output = "> > > nil\n> \n" ∧
        errors s' = [⟨errorLevel, logger, "TauSyntaxError: Unexpected ')'"⟩] := by
  have hstray : SmallLisp.readForm ")\n" = .error (.malformed (.strayCloser ')')) := by
    have hlex : Token.lex ")\n".toList = [⟨.closer, [')']⟩] := by
      rw [show ")\n".toList = [')', '\n'] from rfl]
      simp [Token.lex_cons, Token.lex_separator, Token.cut, Token.isSeparator, Token.isOpener,
        Token.isCloser, Text.isBlank]
    rw [readForm_eq_consume, hlex]
    rfl
  have hnil : SmallLisp.readForm "nil (\n" = .ok (.nil) := by
    have hlex : Token.lex "nil (\n".toList = [⟨.symbol, ['n', 'i', 'l']⟩] ++ [⟨.opener, ['(']⟩] := by
      rw [show "nil (\n".toList = ['n', 'i', 'l', ' ', '(', '\n'] from rfl]
      simp [Token.lex_cons, Token.lex_separator, Token.cut, Token.isSeparator, Token.isOpener,
        Token.isCloser, Token.isDelimiter, Text.isBlank]
    exact readForm_of_form (.bare rfl) hlex
  have hvalue (s : Store) : Comes "nil (\n" s (.ok "nil") s := by
    refine @Comes.printed _ s .nil .nil .nil s s _ hnil rfl ?_ ?_
    · unfold evaluate perform
      rw [show passLimit = passLimit - 1 + 1 from rfl, run_succ]
      rfl
    · unfold Store.print
      cases s.contents.size <;> rfl
  obtain ⟨s₁, hsession⟩ : ∃ s₁, Session "> " (Store.empty errorLevel)
      [⟨"\n", "", .silence⟩, ⟨")\n", "", .failure "TauSyntaxError: Unexpected ')'"⟩,
        ⟨"nil (\n", "", .value "nil"⟩] s₁ := by
    refine ⟨_, .cons (.blank (by decide)) rfl (.cons (.failure ?_ (.unread hstray) rfl) rfl
      (.cons (.value ?_ (hvalue _)) rfl .nil))⟩
    · decide
    · decide
  have hsettles := settles_iff.2 ⟨_, _, rfl, hsession⟩
  refine ⟨hsettles, ?_⟩
  obtain ⟨turns, s', hlines, -, hunique, hloop, houtput, herrors, -⟩ :=
    loop_holds_session hsettles
  obtain ⟨rfl, rfl⟩ := hunique _ _ rfl hsession
  exact ⟨_, hloop, houtput.trans rfl, herrors.trans rfl⟩

end SmallLisp.Console
