import Nameless.Message.Session

/-!
# Which messages are shown

A session calls a messenger again and again, under a verbosity that changes. Whether a call leaves
anything on the stream depends on the verbosity at that moment and on two places at which the call
may fail: the body is made first, whatever the verbosity, and the position of a message that is
shown is put into words.

How templates are filled in does not matter here, so everything is said of an arbitrary filling. All
that is asked of it is that `%s` shows a text as it stands (`Template.Filling.Verbatim`), which the
directives of this library do (`Template.verbatim_standard`).

* **What a call is to say** is told for each kind of call: its tag, its severity, its span, and its
  body, which is the template if there are no arguments, and the filled-in template otherwise
  (`Call.body`, `Call.Says`).
* **What one call can do** (`Messenger.Sends`): it writes one text and flushes it, or it leaves the
  stream alone.
* **What a session does**: each call is attempted once, in order, under the verbosity that was set
  last (`Messenger.run_schedule`), and no call changes the messenger (`Messenger.run_final`).
* **So the stream holds exactly the visible messages, in order** (`Messenger.run_shows_visible`).
-/

namespace Nameless

variable {Arg Err : Type}

/-! ## Texts as they stand -/

namespace Template

/-- A text that is the only argument of `%s` is shown as it stands. -/
def Filling.Verbatim (F : Filling Arg Err) : Prop := ∀ t, F.fill "%s" [F.ofText t] = .ok t

/-- The template `%s` is one directive. -/
theorem parse_text : parse "%s" = [.directive { conversion := some ('s', 1) }] := by
  have hchars : "%s".toList = ['%', 's'] := rfl
  have hlength : "%s".length = 2 := rfl
  rw [parse, hchars, hlength]
  simp [pieces, readDirective, readAmount, readPrecision, skipLength, isFlag, Flags.ofChars]

/-- A text alone fills `%s`, and further arguments are left over. -/
theorem fillIn_text (t : String) (more : List Template.Arg) :
    fillIn "%s" (.text t :: more) = if more = [] then .ok t else .error .unused := by
  have hfill : fill { conversion := some ('s', 1) } (.text t :: more) = .ok (t.toList, more) := by
    simp [fill, width, precision, next, convert, fieldText, pad, Template.Arg.shown, bind,
      Except.bind, pure, Except.pure]
  rw [fillIn, parse_text]
  cases more <;> simp [fillAll, hfill, bind, Except.bind, pure, Except.pure]

/-- Directives show texts as they stand. -/
theorem verbatim_standard : standard.Verbatim := fun t => fillIn_text t []

end Template

/-! ## What a call is to say -/

namespace Call

/-- The tag at the start of the text. -/
def tag : Call Arg → String
  | message msg => msg.tag
  | error _ kind _ => kind
  | warning _ _ => "Warning"
  | debug _ _ => "Debug"
  | report fault => fault.kind.tag

/-- The severity, from `1` for errors to `3` for debugging output. -/
def severity : Call Arg → Int
  | message msg => msg.severity
  | error _ _ _ => 1
  | warning _ _ => 2
  | debug _ _ => 3
  | report _ => 1

/-- The span that the call is about. -/
def span : Call Arg → Option Span
  | message msg => msg.span
  | error span _ _ => span
  | warning _ _ => none
  | debug _ _ => none
  | report fault => fault.span

/-- The template of the body. -/
def template : Call Arg → String
  | message msg => msg.template
  | error _ _ _ => "%s"
  | warning template _ => template
  | debug template _ => template
  | report _ => "%s"

variable (F : Template.Filling Arg Err)

/-- The arguments of the body. -/
def args : Call Arg → List Arg
  | message msg => msg.args
  | error _ _ text => [F.ofText text]
  | warning _ args => args
  | debug _ args => args
  | report fault => [F.ofText fault.message]

/-- The body: the template as it stands, percent signs and all, if there are no arguments, and the
filled-in template otherwise. -/
def body (c : Call Arg) : Except Err String :=
  match c.args F with
  | [] => .ok c.template
  | a :: args => F.fill c.template (a :: args)

/-- The text of a call: its tag, the position that it is about, and its body. -/
def Says (c : Call Arg) (text : String) : Prop :=
  ∃ body position, c.body F = .ok body ∧ Span.describe c.span = .ok position ∧
    text = c.tag ++ " at " ++ position ++ ":\n" ++ body ++ "\n"

/-- The text that a call puts into the body as it stands: that of an error or a fault, and every
template without arguments. -/
def verbatim? : Call Arg → Option String
  | message msg => if msg.args = [] then some msg.template else none
  | error _ _ text => some text
  | warning template args => if args = [] then some template else none
  | debug template args => if args = [] then some template else none
  | report fault => some fault.message

/-- What a call is to say is what it sends. -/
theorem sent_eq (c : Call Arg) :
    c.sent F = ⟨c.tag, c.severity, c.template, c.args F, c.span⟩ := by
  cases c <;> rfl

/-- What a call is to have for a body is what it fills in. -/
theorem body_eq (c : Call Arg) : F.body c.template (c.args F) = c.body F := by
  unfold body Template.Filling.body
  cases c.args F <;> rfl

variable {F}

/-- **Errors, faults and templates without arguments are put into the body as they stand.** -/
theorem body_of_verbatim? (hF : F.Verbatim) {c : Call Arg} {text : String}
    (h : c.verbatim? = some text) : c.body F = .ok text := by
  have htemplate {template : String} {args : List Arg}
      (h : (if args = [] then some template else none) = some text) :
      args = [] ∧ template = text := by
    split at h
    · rename_i hargs
      exact ⟨hargs, Option.some.inj h⟩
    · cases h
  cases c with
  | message msg =>
    obtain ⟨hargs, htext⟩ := htemplate h
    rw [body, args, hargs]
    exact congrArg Except.ok htext
  | error span kind shown =>
    obtain rfl : shown = text := Option.some.inj h
    exact hF shown
  | warning template args =>
    obtain ⟨rfl, rfl⟩ := htemplate h
    rfl
  | debug template args =>
    obtain ⟨rfl, rfl⟩ := htemplate h
    rfl
  | report fault =>
    obtain rfl : fault.message = text := Option.some.inj h
    exact hF fault.message

end Call

/-! ## One call -/

/-- A stream that is not broken takes a text and is flushed. -/
def StreamCall.printing (text : String) : List StreamCall := [.write text, .flush]

namespace Messenger

/-- What a call can come to under a verbosity, if the stream is not broken. -/
inductive Sends (F : Template.Filling Arg Err) (verbosity : Int) (c : Call Arg) :
    Delivery Err → Prop where
  /-- The template does not fit its arguments. -/
  | unfit {e : Err} (hbody : c.body F = .error e) :
    Sends F verbosity c { outcome := .error (.template e) }
  /-- The message is not shown, and goes to the log. -/
  | hidden {body : String} (hbody : c.body F = .ok body) (hsev : verbosity < c.severity) :
    Sends F verbosity c { log := [⟨c.tag, c.severity, verbosity⟩], outcome := .ok () }
  /-- The message is to be shown, and a number of its position is too long to be written. -/
  | unplaced {body : String} {bound : DigitLimit} (hbody : c.body F = .ok body)
    (hsev : c.severity ≤ verbosity) (hposition : Span.describe c.span = .error bound) :
    Sends F verbosity c { outcome := .error (.digits bound) }
  /-- The message is shown. -/
  | shown {text : String} (hsev : c.severity ≤ verbosity) (htext : c.Says F text) :
    Sends F verbosity c { calls := StreamCall.printing text, outcome := .ok () }

variable {F : Template.Filling Arg Err} {m : Messenger}

/-- **What one call comes to**, if the stream is not broken. -/
theorem sendBy_sends (F : Template.Filling Arg Err) (hm : m.broken = none) (c : Call Arg) :
    Sends F m.verbosity c (m.sendBy F (c.sent F)) := by
  rw [c.sent_eq, sendBy]
  simp only [Call.body_eq]
  cases hbody : c.body F with
  | error e => exact .unfit hbody
  | ok body =>
    by_cases hsev : m.verbosity < c.severity
    · simp only [if_pos hsev]
      exact .hidden hbody hsev
    · simp only [if_neg hsev]
      have hle : c.severity ≤ m.verbosity := Int.not_lt.1 hsev
      cases hposition : Span.describe c.span with
      | error bound => exact .unplaced hbody hle hposition
      | ok position =>
        simp only [emit, hm, layout_eq]
        exact .shown hle ⟨body, position, hbody, hposition, rfl⟩

/-- **The body fails or not, whatever the verbosity**, and its failure is that of the call. -/
theorem Sends.unfit_iff {v : Int} {c : Call Arg} {d : Delivery Err} (h : Sends F v c d)
    (e : Err) : d.outcome = .error (.template e) ↔ c.body F = .error e := by
  cases h with
  | unfit hbody => simp [hbody]
  | hidden hbody _ => simp [hbody]
  | unplaced hbody _ _ => simp [hbody]
  | shown _ htext =>
    obtain ⟨body, position, hbody, -⟩ := htext
    simp [hbody]

/-- A call whose severity is within the verbosity succeeds exactly if there is a text for it. -/
theorem Sends.ok_iff {v : Int} {c : Call Arg} {d : Delivery Err} (h : Sends F v c d)
    (hsev : c.severity ≤ v) : d.outcome = .ok () ↔ ∃ text, c.Says F text := by
  cases h with
  | unfit hbody =>
    constructor
    · intro hok
      cases hok
    · rintro ⟨text, body, position, hok, -⟩
      rw [hbody] at hok
      cases hok
  | hidden _ hlt => exact absurd hsev (Int.not_le.2 hlt)
  | unplaced _ _ hposition =>
    constructor
    · intro hok
      cases hok
    · rintro ⟨text, body, position, -, hok, -⟩
      rw [hposition] at hok
      cases hok
  | shown _ htext => exact ⟨fun _ => ⟨_, htext⟩, fun _ => rfl⟩

end Messenger

namespace Attempt

/-- The call raised nothing, and its severity is within the verbosity that was in force. -/
def Shown (a : Attempt Arg Err) : Prop :=
  a.delivery.outcome.isOk = true ∧ a.call.severity ≤ a.verbosity

instance (a : Attempt Arg Err) : Decidable a.Shown := inferInstanceAs (Decidable (_ ∧ _))

variable {F : Template.Filling Arg Err} {a : Attempt Arg Err}

/-- The attempt came to what a call can come to under the verbosity in force. -/
def Sound (F : Template.Filling Arg Err) (a : Attempt Arg Err) : Prop :=
  Messenger.Sends F a.verbosity a.call a.delivery

/-- A call that is shown writes its text and flushes it. -/
theorem Sound.calls_of_shown (h : a.Sound F) (hshown : a.Shown) :
    ∃ text, a.call.Says F text ∧ a.delivery.calls = StreamCall.printing text := by
  obtain ⟨c, v, d⟩ := a
  obtain ⟨hok, hsev⟩ := hshown
  have hsends : Messenger.Sends F v c d := h
  cases hsends with
  | unfit => cases hok
  | hidden _ hlt => exact absurd hsev (Int.not_le.2 hlt)
  | unplaced => cases hok
  | shown _ htext => exact ⟨_, htext, rfl⟩

/-- A call that is not shown leaves the stream alone. -/
theorem Sound.calls_of_not_shown (h : a.Sound F) (hhidden : ¬ a.Shown) :
    a.delivery.calls = [] := by
  obtain ⟨c, v, d⟩ := a
  have hsends : Messenger.Sends F v c d := h
  cases hsends with
  | shown hsev _ => exact absurd ⟨rfl, hsev⟩ hhidden
  | _ => rfl

/-- **The stream holds the texts of the calls that are shown, in order**, each of them flushed. -/
theorem exists_printed {attempts : List (Attempt Arg Err)} (h : ∀ a ∈ attempts, a.Sound F) :
    ∃ printed : List (Attempt Arg Err × String),
      printed.map Prod.fst = attempts.filter (fun a => a.Shown) ∧
      (∀ p ∈ printed, p.1.call.Says F p.2) ∧
      (attempts.flatMap fun a => a.delivery.calls) =
        printed.flatMap fun p => StreamCall.printing p.2 := by
  induction attempts with
  | nil => exact ⟨[], rfl, by simp, rfl⟩
  | cons a rest ih =>
    obtain ⟨printed, hfilter, hsays, hcalls⟩ := ih fun b hb => h b (List.mem_cons_of_mem a hb)
    have ha : a.Sound F := h a List.mem_cons_self
    by_cases hshown : a.Shown
    · obtain ⟨text, htext, hprinted⟩ := ha.calls_of_shown hshown
      refine ⟨(a, text) :: printed, ?_, ?_, ?_⟩
      · rw [List.filter_cons_of_pos (by simpa using hshown), ← hfilter, List.map_cons]
      · intro p hp
        rcases List.mem_cons.1 hp with rfl | hp
        · exact htext
        · exact hsays p hp
      · rw [List.flatMap_cons, List.flatMap_cons, hprinted, hcalls]
    · refine ⟨printed, ?_, hsays, ?_⟩
      · rw [List.filter_cons_of_neg (by simpa using hshown), hfilter]
      · rw [List.flatMap_cons, ha.calls_of_not_shown hshown, List.nil_append, hcalls]

end Attempt

/-! ## Sessions -/

namespace Request

/-- The calls of a session, in order, each with the verbosity that was set last before it. -/
def schedule (verbosity : Int) : List (Request Arg) → List (Call Arg × Int)
  | [] => []
  | .call c :: rest => (c, verbosity) :: schedule verbosity rest
  | .verbosity n :: rest => schedule n rest

/-- The verbosity that a session leaves behind: the one that was set last. -/
def lastVerbosity (verbosity : Int) : List (Request Arg) → Int
  | [] => verbosity
  | .call _ :: rest => lastVerbosity verbosity rest
  | .verbosity n :: rest => lastVerbosity n rest

end Request

namespace Messenger

variable (F : Template.Filling Arg Err)

/-- A call is attempted under the verbosity in force. -/
theorem run_call (m : Messenger) (c : Call Arg) (rest : List (Request Arg)) :
    m.run F (.call c :: rest) =
      (⟨c, m.verbosity, m.sendBy F (c.sent F)⟩ :: (m.run F rest).1, (m.run F rest).2) := rfl

/-- A change of the verbosity holds from then on. -/
theorem run_verbosity (m : Messenger) (n : Int) (rest : List (Request Arg)) :
    m.run F (.verbosity n :: rest) = ({ m with verbosity := n } : Messenger).run F rest := rfl

/-- **Each call is attempted once, in order**, under the verbosity that was set last. -/
theorem run_schedule (m : Messenger) (requests : List (Request Arg)) :
    (m.run F requests).1.map (fun a => (a.call, a.verbosity)) =
      Request.schedule m.verbosity requests := by
  induction requests generalizing m with
  | nil => rfl
  | cons request rest ih =>
    cases request with
    | call c => rw [run_call, List.map_cons, ih, Request.schedule]
    | verbosity n => rw [run_verbosity, ih, Request.schedule]

/-- **No call changes the messenger.** -/
theorem run_final (m : Messenger) (requests : List (Request Arg)) :
    (m.run F requests).2 = { m with verbosity := Request.lastVerbosity m.verbosity requests } := by
  induction requests generalizing m with
  | nil => rfl
  | cons request rest ih =>
    cases request with
    | call c => rw [run_call, ih, Request.lastVerbosity]
    | verbosity n => rw [run_verbosity, ih, Request.lastVerbosity]

/-- **Every call comes to what a call can come to**, if the stream is not broken. -/
theorem run_sound {m : Messenger} (hm : m.broken = none) {requests : List (Request Arg)}
    {a : Attempt Arg Err} (ha : a ∈ (m.run F requests).1) : a.Sound F := by
  induction requests generalizing m with
  | nil => cases ha
  | cons request rest ih =>
    cases request with
    | call c =>
      rcases List.mem_cons.1 ha with rfl | ha
      · exact sendBy_sends F hm c
      · exact ih hm ha
    | verbosity n => exact ih (m := { m with verbosity := n }) hm ha

/-- **The stream holds exactly the visible messages, in order.** Let templates be filled in in some
way that shows a text as it stands for `%s`, and let the stream not be broken. A session attempts
each of its calls once, in order, under the verbosity that was set last, and calls leave the
messenger as it is. What the stream receives, all in all, is one text and one flush for each call
that raises nothing and whose severity is within the verbosity in force, in order: the tag, the
position and the body of the message. Moreover, for each call:

* if it raises something or its severity exceeds the verbosity, it leaves the stream alone;
* if its severity is within the verbosity, it succeeds exactly if its body and its position can be
  put into words;
* its template is found not to fit exactly if its body fails, with the same failure, and that is so
  under every other verbosity as well;
* if it reports an error or a fault, or has no arguments, then its body does not fail, and is the
  text as it stands. -/
theorem run_shows_visible {F : Template.Filling Arg Err} (hF : F.Verbatim) {m : Messenger}
    (hm : m.broken = none) (requests : List (Request Arg)) :
    ∃ attempts final, m.run F requests = (attempts, final) ∧
      attempts.map (fun a => (a.call, a.verbosity)) = Request.schedule m.verbosity requests ∧
      final = { m with verbosity := Request.lastVerbosity m.verbosity requests } ∧
      (∃ printed : List (Attempt Arg Err × String),
        printed.map Prod.fst = attempts.filter (fun a => a.Shown) ∧
        (∀ p ∈ printed, p.1.call.Says F p.2) ∧
        (attempts.flatMap fun a => a.delivery.calls) =
          printed.flatMap fun p => [.write p.2, .flush]) ∧
      ∀ a ∈ attempts,
        (¬ a.Shown → a.delivery.calls = []) ∧
        (a.call.severity ≤ a.verbosity →
          (a.delivery.outcome = .ok () ↔ ∃ text, a.call.Says F text)) ∧
        (∀ e, a.delivery.outcome = .error (.template e) ↔ a.call.body F = .error e) ∧
        (∀ v a', (({ m with verbosity := v } : Messenger).serve F (.call a.call)).1 = some a' →
          ∀ e, a'.delivery.outcome = .error (.template e) ↔
            a.delivery.outcome = .error (.template e)) ∧
        (∀ text, a.call.verbatim? = some text →
          a.call.body F = .ok text ∧ ∀ e, a.delivery.outcome ≠ .error (.template e)) := by
  refine ⟨_, _, rfl, run_schedule F m requests, run_final F m requests, ?_, ?_⟩
  · exact Attempt.exists_printed fun a ha => run_sound F hm ha
  · intro a ha
    have hsound : a.Sound F := run_sound F hm ha
    refine ⟨hsound.calls_of_not_shown, hsound.ok_iff, hsound.unfit_iff, ?_, ?_⟩
    · rintro v a' ⟨⟩ e
      have hother : Sends F v a.call _ := sendBy_sends (m := { m with verbosity := v }) F hm a.call
      rw [hother.unfit_iff, hsound.unfit_iff]
    · intro text htext
      have hbody := Call.body_of_verbatim? hF htext
      refine ⟨hbody, ?_⟩
      intro e hfail
      rw [hsound.unfit_iff, hbody] at hfail
      cases hfail

/-- Under verbosity `1`, debugging output is not shown and an error is, percent sign and all. Then
the verbosity is raised, and debugging output would be shown, but an argument is left over. -/
theorem run_shows_visible_error :
    let m : Messenger := { verbosity := 1 }
    let requests : List Request := [.call (.debug "50% done" []),
      .call (.error none "Error" "100% wrong"), .verbosity 3,
      .call (.debug "%s" [.text "x", .nothing])]
    Template.standard.Verbatim ∧ m.broken = none ∧
      ∃ attempts final, m.run Template.standard requests = (attempts, final) ∧
        final.verbosity = 3 ∧
        (attempts.flatMap fun a => a.delivery.calls) =
          [.write "Error at unknown position:\n100% wrong\n", .flush] := by
  intro m requests
  have hm : m.broken = none := rfl
  obtain ⟨attempts, final, hrun, -, hfinal, -, hcalls⟩ :=
    run_shows_visible Template.verbatim_standard hm requests
  refine ⟨Template.verbatim_standard, hm, attempts, final, hrun, by rw [hfinal]; rfl, ?_⟩
  -- the severity of the first call exceeds the verbosity, so it leaves the stream alone
  let hidden : Attempt := ⟨.debug "50% done" [], 1, m.send (.debug "50% done" [])⟩
  have hattempts : (m.run Template.standard requests).1 = attempts := by rw [hrun]
  have hsilent : hidden.delivery.calls = [] :=
    (hcalls hidden (hattempts ▸ List.mem_cons_self)).1 fun h => absurd h.2 (by decide)
  have herror : (m.send (.error none "Error" "100% wrong")).calls =
      [.write "Error at unknown position:\n100% wrong\n", .flush] := by
    have hbody : Template.standard.body "%s" [.text "100% wrong"] = .ok "100% wrong" :=
      Template.fillIn_text _ []
    simp only [send, sendBy, Message.error, Message.errorBy, Template.standard] at hbody ⊢
    rw [hbody]
    simp [m, Message.errorSeverity, Span.describe, emit, layout_eq]
  let raised : Messenger := { verbosity := 3 }
  have hunfit : (raised.send (.debug "%s" [.text "x", .nothing])).calls = [] := by
    have hbody : Template.standard.body "%s" [.text "x", .nothing] = .error .unused :=
      Template.fillIn_text _ [.nothing]
    rw [send, sendBy, Message.debug, hbody]
  have hstream : ((m.run Template.standard requests).1.flatMap fun a => a.delivery.calls) =
      hidden.delivery.calls ++ ((m.send (.error none "Error" "100% wrong")).calls ++
        ((raised.send (.debug "%s" [.text "x", .nothing])).calls ++ [])) := rfl
  rw [hsilent, herror, hunfit, hattempts] at hstream
  exact hstream

end Messenger

end Nameless
