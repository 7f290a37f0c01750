import Nameless.Proofs.Sketch

/-!
# What a printing run does, as a tree

A `Trace` tells what a run does, also one that fails on its way: what it has put on the page by
then, which subterms it has left out, and which fresh names it has asked for.
`p.trace context room asked e` is the trace of printing `e` when `room` more groups may be opened
and the names in `asked` were asked for before.

* **A run leaves just what its trace says, and ends as its trace says** (`Printer.term_traced`),
  wherever it starts. So the text of a term is read off its trace (`Printer.runAt_format_traced`).
* **A trace that does not fail is a sketch** (`Trace.sketch`), so the text of a term is also the
  text of its sketch (`Printer.runAt_format`, `Printer.format_eq_ok`).
* **Where the answers to requests ignore what was asked before, so do traces**
  (`Printer.trace_steady`).
-/

namespace Nameless

/-- What is done to print a term. -/
inductive Trace where
  /-- Nothing, for a term of that kind: the page was full. -/
  | hole (kind : Term.Kind)
  /-- Nothing: the term cannot be printed. -/
  | failed (x : Failure)
  /-- A variable by its name. -/
  | var (index : Nat) (name : String)
  /-- The frame of an abstraction whose binders cannot be named. -/
  | unnamed (requests : List Name.Query) (x : Failure)
  /-- A binder list and what is below it. The binders come innermost first. -/
  | lam (requests : List Name.Query) (binders : List Binder) (body : Trace)
  /-- An application. Its argument is reached unless its function fails. -/
  | app (fn arg : Trace)
deriving DecidableEq

namespace Trace

/-- The failure that ends the run, if there is one. -/
def failure : Trace → Option Failure
  | hole _ => none
  | failed x => some x
  | var _ _ => none
  | unnamed _ x => some x
  | lam _ _ body => body.failure
  | app fn arg => fn.failure.or arg.failure

/-- How the run ends. -/
def outcome (t : Trace) : Except Failure Unit :=
  match t.failure with
  | none => .ok ()
  | some x => .error x

/-- What comes after a part of a run, unless that part fails. -/
def before {α : Type} (first : Trace) (rest : List α) : List α :=
  if first.failure = none then rest else []

/-- The marks that are put on the page, in a place that allows a level, with a symbol before binder
lists. -/
def marks (symbol : String) : Option Int → Trace → List Mark
  | _, hole _ => []
  | _, failed _ => []
  | max, var _ name => Mark.framed max 0 [.text name]
  | max, unnamed _ _ => Mark.framed max Level.lam []
  | max, lam _ binders body =>
    Mark.framed max Level.lam (Mark.framed none Level.lam
      (Sketch.heading symbol (binders.map Binder.name).reverse ++ body.marks symbol none))
  | max, app fn arg =>
    Mark.framed max Level.app
      (fn.marks symbol (some Level.app) ++ fn.before (.gap :: arg.marks symbol (some 0)))

/-- What is left out, when a number of groups are open around the term. -/
def skips : Nat → Trace → List Skip
  | depth, hole kind => [⟨depth, kind⟩]
  | _, failed _ => []
  | _, var _ _ => []
  | _, unnamed _ _ => []
  | depth, lam _ _ body => body.skips (depth + 2)
  | depth, app fn arg => fn.skips (depth + 1) ++ fn.before (arg.skips (depth + 1))

/-- The fresh names that are asked for. -/
def requests : Trace → List Name.Query
  | hole _ => []
  | failed _ => []
  | var _ _ => []
  | unnamed requests _ => requests
  | lam requests _ body => requests ++ body.requests
  | app fn arg => fn.requests ++ fn.before arg.requests

/-- All that the run leaves behind. -/
def record (symbol : String) (max : Option Int) (depth : Nat) (t : Trace) : Record :=
  ⟨t.marks symbol max, t.skips depth, t.requests⟩

/-- The text that the run puts on a page of its own. -/
def text (symbol : String) (max : Option Int) (t : Trace) : String :=
  String.ofList (Mark.chars (t.marks symbol max))

/-- How a run on a page of its own ends, and what it leaves on the desk beside the page. -/
def printed (symbol : String) (max : Option Int) (t : Trace) (desk : Desk) :
    Except Failure String × Desk :=
  (t.outcome.map fun _ => t.text symbol max,
    { desk with
      skips := desk.skips ++ (t.skips 0).toArray
      requests := desk.requests ++ t.requests.toArray })

/-- After a part that does not fail, the rest is reached. -/
theorem before_of_ok {α : Type} {first : Trace} (h : first.failure = none) (rest : List α) :
    first.before rest = rest := if_pos h

/-- After a part that fails, nothing is reached. -/
theorem before_of_failure {α : Type} {first : Trace} {x : Failure} (h : first.failure = some x)
    (rest : List α) : first.before rest = [] := by
  unfold before
  rw [h]
  rfl

/-- A run that nothing ends succeeds. -/
theorem outcome_of_ok {t : Trace} (h : t.failure = none) : t.outcome = .ok () := by
  rw [outcome, h]

/-- A run fails with what ends it. -/
theorem outcome_of_failure {t : Trace} {x : Failure} (h : t.failure = some x) :
    t.outcome = .error x := by
  rw [outcome, h]

/-- A run that does not fail gives its text. -/
theorem printed_of_ok {t : Trace} (h : t.failure = none) (symbol : String) (max : Option Int)
    (desk : Desk) : (t.printed symbol max desk).1 = .ok (t.text symbol max) := by
  rw [printed, outcome_of_ok h]
  rfl

/-- A run that fails gives no text. -/
theorem printed_of_failure {t : Trace} {x : Failure} (h : t.failure = some x) (symbol : String)
    (max : Option Int) (desk : Desk) : (t.printed symbol max desk).1 = .error x := by
  rw [printed, outcome_of_failure h]
  rfl

/-- A run adds no skips to the desk exactly if it leaves nothing out. -/
theorem skips_printed_iff {t : Trace} {symbol : String} {max : Option Int} {desk : Desk} :
    (t.printed symbol max desk).2.skips = desk.skips ↔ t.skips 0 = [] := by
  simp [printed]

end Trace

namespace Printer

/-- What is done to print a term in a context when `room` more groups may be opened, after some
fresh names were asked for. -/
def trace (p : Printer) (context : List String) (room : Int) (asked : List Name.Query) (e : Term) :
    Trace :=
  if room ≤ 0 then .hole e.kind
  else match e with
  | .var loc index =>
    match nameAt? context index with
    | some name => .var index.toNat name
    | none => .failed (.raise (.nameless index context.length loc))
  | .pending _ s body =>
    match _h : body.force s with
    | .error x => .failed x
    | .ok r => p.trace context room asked r
  | .lam _ hint body =>
    match _h : body.run with
    | .error x => .unnamed [] x
    | .ok (hints, inner) =>
      let naming := p.nameBinders context inner asked [] (hint :: hints).reverse
      match naming.outcome with
      | .error x => .unnamed naming.queries x
      | .ok bs => .lam naming.queries bs
          (p.trace (bs.map Binder.name ++ context) (room - 2) (asked ++ naming.queries) inner)
  | .app _ fn arg =>
    let first := p.trace context (room - 1) asked fn
    .app first (p.trace context (room - 1) (asked ++ first.requests) arg)
  | .unknown loc => .failed (.raise (.unprintable (.unknown loc)))
termination_by e.weight
decreasing_by
  · exact Term.weight_force_lt _h _
  · exact Term.weight_run_lt _h _ _
  · exact Term.weight_fn_lt _ _ _
  · exact Term.weight_arg_lt _ _ _

/-- A variable that has a name. -/
theorem trace_var {p : Printer} {context : List String} {room : Int} (h : 0 < room)
    {index : Int} {name : String} (hname : nameAt? context index = some name)
    (asked : List Name.Query) (loc : Option Span) :
    p.trace context room asked (.var loc index) = .var index.toNat name := by
  rw [trace, if_neg (by omega), hname]

/-- A pending substitution is carried out first. -/
theorem trace_pending {p : Printer} {context : List String} {room : Int} (h : 0 < room)
    {s : Subst} {body r : Term} (hforce : body.force s = .ok r) (asked : List Name.Query)
    (loc : Option Span) :
    p.trace context room asked (.pending loc s body) = p.trace context room asked r := by
  rw [trace, if_neg (by omega), hforce]

/-- An abstraction whose binders get their names. What was asked for to name them is asked before
what is below is reached. -/
theorem trace_lam {p : Printer} {context : List String} {room : Int} (h : 0 < room) {body : Term}
    {hint : String} {hints : List String} {inner : Term} (hrun : body.run = .ok (hints, inner))
    {asked queries : List Name.Query} {bs : List Binder}
    (hnames : p.nameBinders context inner asked [] (hint :: hints).reverse = ⟨queries, .ok bs⟩)
    {below : Trace}
    (hbelow : p.trace (bs.map Binder.name ++ context) (room - 2) (asked ++ queries) inner = below)
    (loc : Option Span) :
    p.trace context room asked (.lam loc hint body) = .lam queries bs below := by
  rw [trace, if_neg (by omega), hrun]
  simp only [hnames, hbelow]

/-- An application. What its function asks for is asked before its argument is reached. -/
theorem trace_app {p : Printer} {context : List String} {room : Int} (h : 0 < room)
    {asked : List Name.Query} {fn arg : Term} {first second : Trace}
    (hfn : p.trace context (room - 1) asked fn = first)
    (harg : p.trace context (room - 1) (asked ++ first.requests) arg = second)
    (loc : Option Span) : p.trace context room asked (.app loc fn arg) = .app first second := by
  rw [trace, if_neg (by omega)]
  simp only [hfn, harg]

/-- If what was asked before makes no difference to the fresh names, it makes none to naming. -/
theorem nameBinders_steady {p : Printer} (hp : p.freshen.Steady) (context : List String)
    (body : Term) (asked asked' : List Name.Query) (chosen : List Binder) (hints : List String) :
    p.nameBinders context body asked chosen hints =
      p.nameBinders context body asked' chosen hints := by
  induction hints generalizing asked asked' chosen with
  | nil => rfl
  | cons hint hints ih =>
    have hname (used : Bool) (query : Name.Query) :
        p.nameFor asked used query = p.nameFor asked' used query := by
      rw [nameFor, nameFor, hp asked asked']
    simp only [nameBinders, hname]
    cases body.occurs chosen.length with
    | error x => rfl
    | ok used =>
      dsimp only
      cases p.nameFor asked' used (hint, context ++ chosen.map Binder.name) with
      | error x => rfl
      | ok name => exact congrArg (Naming.after · (queryFor used _)) (ih _ _ _)

/-- If what was asked before makes no difference to the fresh names, it makes none to the trace. -/
theorem trace_steady {p : Printer} (hp : p.freshen.Steady) (context : List String) (room : Int)
    (asked asked' : List Name.Query) (e : Term) :
    p.trace context room asked e = p.trace context room asked' e := by
  fun_induction p.trace context room asked e generalizing asked' with
  | case1 context room asked e hle => rw [trace.eq_def, if_pos hle]
  | case2 context room asked hgt loc index name hname => rw [trace, if_neg hgt, hname]
  | case3 context room asked hgt loc index hname => rw [trace, if_neg hgt, hname]
  | case4 context room asked hgt loc s body x hforce => rw [trace, if_neg hgt, hforce]
  | case5 context room asked hgt loc s body r hforce ih =>
    rw [trace, if_neg hgt, hforce]
    exact ih asked'
  | case6 context room asked hgt loc hint body x hrun => rw [trace, if_neg hgt, hrun]
  | case7 context room asked hgt loc hint body hints inner hrun naming x hnames =>
    rw [trace, if_neg hgt, hrun]
    simp only [nameBinders_steady hp context inner asked' asked]
    simp only [naming] at hnames
    simp only [hnames, naming]
  | case8 context room asked hgt loc hint body hints inner hrun naming bs hnames ih =>
    have hnaming : p.nameBinders context inner asked' [] (hint :: hints).reverse =
        ⟨naming.queries, .ok bs⟩ := by
      rw [nameBinders_steady hp context inner asked' asked, ← hnames]
    exact (trace_lam (Int.not_le.1 hgt) hrun hnaming (ih _).symm loc).symm
  | case9 context room asked hgt loc fn arg first ihf iha =>
    exact (trace_app (Int.not_le.1 hgt) (ihf asked').symm (iha _).symm loc).symm
  | case10 context room asked hgt loc => rw [trace, if_neg hgt]

/-! ## Runs -/

/-- On a full page, a term is left out. -/
theorem adds_of_full {desk : Desk} (h : desk.page.isFull = true) (kind : Term.Kind)
    (body : Print Unit) :
    (do if (← Print.page).isFull then Print.skip kind else body : Print Unit).Adds desk (.ok ())
      ⟨[], [⟨desk.page.depth, kind⟩], []⟩ := by
  show (if desk.page.isFull then Print.skip kind else body).Adds desk _ _
  rw [if_pos h]
  exact Print.adds_skip kind desk

/-- On a page that is not full, looking at the page leaves nothing behind. -/
theorem adds_of_room {desk : Desk} (h : ¬ desk.page.isFull = true) (kind : Term.Kind)
    {body : Print Unit} {outcome : Except Failure Unit} {r : Record}
    (hbody : body.Adds desk outcome r) :
    (do if (← Print.page).isFull then Print.skip kind else body : Print Unit).Adds desk outcome
      r := by
  show (if desk.page.isFull then Print.skip kind else body).Adds desk outcome r
  rwa [if_neg h]

/-- An application does what its function does, and then what its argument does. -/
theorem app_traced {fn arg : Print Unit} {tfn targ : Trace} {symbol : String} (max : Option Int)
    {desk : Desk}
    (hfn : fn.Adds (desk.framing max Level.app) tfn.outcome
      (tfn.record symbol (some Level.app) (desk.page.depth + 1)))
    (harg : ∀ desk' : Desk, desk'.page.limit = desk.page.limit →
      desk'.page.depth = desk.page.depth + 1 →
      desk'.requests.toList = desk.requests.toList ++ tfn.requests →
      arg.Adds desk' targ.outcome (targ.record symbol (some 0) (desk.page.depth + 1))) :
    (Print.framed max Level.app (do fn; Print.gap; arg)).Adds desk (Trace.app tfn targ).outcome
      ((Trace.app tfn targ).record symbol max desk.page.depth) := by
  cases hfailure : tfn.failure with
  | some x =>
    have hends : (Trace.app tfn targ).outcome = .error x := by
      apply Trace.outcome_of_failure
      rw [Trace.failure, hfailure]
      rfl
    rw [Trace.outcome_of_failure hfailure] at hfn
    rw [hends]
    simp only [Trace.record, Trace.marks, Trace.skips, Trace.requests,
      Trace.before_of_failure hfailure, List.append_nil]
    exact (hfn.bind_error _).framed
  | none =>
    have hends : (Trace.app tfn targ).outcome = targ.outcome := by
      rw [Trace.outcome, Trace.failure, hfailure, Option.none_or, Trace.outcome]
    rw [Trace.outcome_of_ok hfailure] at hfn
    rw [hends]
    simp only [Trace.record, Trace.marks, Trace.skips, Trace.requests,
      Trace.before_of_ok hfailure]
    have hgap := Print.adds_gap ((desk.framing max Level.app).add
      (tfn.record symbol (some Level.app) (desk.page.depth + 1)))
    have hlast := harg (((desk.framing max Level.app).add
      (tfn.record symbol (some Level.app) (desk.page.depth + 1))).add ⟨[.gap], [], []⟩)
      (by simp) (by simp) (by simp [Trace.record])
    exact (hfn.next (hgap.next hlast)).framed

/-- A binder list does what naming its binders does, and then what is done below it. -/
theorem lam_traced {p : Printer} {context hints : List String} {body : Term}
    {inside : List String → Print Unit} {desk : Desk} (max : Option Int) {bs : List Binder}
    {queries : List Name.Query}
    (hnames : p.nameBinders context body desk.requests.toList [] hints.reverse =
      ⟨queries, .ok bs⟩) {below : Trace}
    (hinside : ∀ desk' : Desk, desk'.page.limit = desk.page.limit →
      desk'.page.depth = desk.page.depth + 2 →
      desk'.requests.toList = desk.requests.toList ++ queries →
      (inside (bs.map Binder.name ++ context)).Adds desk' below.outcome
        (below.record p.style.lambda none (desk.page.depth + 2))) :
    let t := Trace.lam queries bs below
    (Print.framed max Level.lam (p.binders context hints body inside)).Adds desk t.outcome
      (t.record p.style.lambda max desk.page.depth) := by
  intro t
  have hchosen := p.chooseNames_adds context body [] hints.reverse (desk.framing max Level.lam)
  rw [Desk.requests_framing, hnames] at hchosen
  -- the body is printed in two frames, after the heading
  let opened : Desk := ((desk.framing max Level.lam).add ⟨[], [], queries⟩).framing none Level.lam
  have hheading := p.heading_adds (bs.map Binder.name).reverse opened
  have hbelow := hinside
    (opened.add ⟨Sketch.heading p.style.lambda (bs.map Binder.name).reverse, [], []⟩)
    (by simp [opened]) (by simp [opened]) (by simp [opened])
  have hlist : (p.binders context hints body inside).Adds (desk.framing max Level.lam) t.outcome
      (⟨[], [], queries⟩ ++ _) := hchosen.bind (hheading.next hbelow).framed
  exact hlist.framed

/-- **A run leaves just what its trace says, and ends as its trace says.** -/
theorem term_traced (p : Printer) (context : List String) (e : Term) (max : Option Int)
    (desk : Desk) :
    let t := p.trace context (desk.page.limit - desk.page.depth) desk.requests.toList e
    (p.term context e max).Adds desk t.outcome (t.record p.style.lambda max desk.page.depth) := by
  generalize hroom : desk.page.limit - desk.page.depth = room
  generalize hasked : desk.requests.toList = asked
  have hfull (desk : Desk) : desk.page.isFull = true ↔ desk.page.limit - desk.page.depth ≤ 0 := by
    rw [Page.isFull_iff]
    omega
  fun_induction p.trace context room asked e generalizing max desk with
  | case1 context room asked e hle =>
    unfold term
    exact adds_of_full ((hfull desk).2 (by omega)) _ _
  | case2 context room asked hgt loc index name hname =>
    rw [term]
    apply adds_of_room (mt (hfull desk).1 (by omega))
    rw [hname]
    exact (Print.adds_text name _).framed
  | case3 context room asked hgt loc index hname =>
    rw [term]
    apply adds_of_room (mt (hfull desk).1 (by omega))
    rw [hname]
    exact Print.adds_throw _ desk
  | case4 context room asked hgt loc s body x hforce =>
    rw [term]
    apply adds_of_room (mt (hfull desk).1 (by omega))
    rw [hforce]
    exact Print.adds_throw _ desk
  | case5 context room asked hgt loc s body r hforce ih =>
    rw [term]
    apply adds_of_room (mt (hfull desk).1 (by omega))
    rw [hforce]
    exact ih max desk hroom hasked
  | case6 context room asked hgt loc hint body x hrun =>
    rw [term]
    apply adds_of_room (mt (hfull desk).1 (by omega))
    rw [hrun]
    exact (Print.adds_throw x _).framed
  | case7 context room asked hgt loc hint body hints inner hrun naming x hnames =>
    rw [term]
    apply adds_of_room (mt (hfull desk).1 (by omega))
    rw [hrun]
    have hchosen := p.chooseNames_adds context inner [] (hint :: hints).reverse
      (desk.framing max Level.lam)
    rw [Desk.requests_framing, hasked] at hchosen
    simp only [naming] at hnames
    simp only [hnames] at hchosen
    exact (hchosen.bind_error _).framed
  | case8 context room asked hgt loc hint body hints inner hrun naming bs hnames ih =>
    rw [term]
    apply adds_of_room (mt (hfull desk).1 (by omega))
    rw [hrun]
    have hnaming : p.nameBinders context inner desk.requests.toList [] (hint :: hints).reverse =
        ⟨naming.queries, .ok bs⟩ := by
      rw [hasked, ← hnames]
    refine lam_traced max hnaming ?_
    intro desk' hlimit hdepth hrequests
    have hbelow := ih none desk' (by omega) (by rw [hrequests, hasked])
    rwa [hdepth] at hbelow
  | case9 context room asked hgt loc fn arg first ihf iha =>
    rw [term]
    apply adds_of_room (mt (hfull desk).1 (by omega))
    refine app_traced max ?_ ?_
    · have hfn := ihf (some Level.app) (desk.framing max Level.app) (by
        rw [Desk.limit_framing, Desk.depth_framing]
        omega) (by rw [Desk.requests_framing, hasked])
      rwa [Desk.depth_framing] at hfn
    · intro desk' hlimit hdepth hrequests
      have harg := iha (some 0) desk' (by omega) (by rw [hrequests, hasked])
      rwa [hdepth] at harg
  | case10 context room asked hgt loc =>
    rw [term]
    apply adds_of_room (mt (hfull desk).1 (by omega))
    exact Print.adds_throw _ desk

/-- **The text of a term is read off its trace**, and so is all else that comes of it. -/
theorem runAt_format_traced (p : Printer) (context : List String) (e : Term) (max : Option Int)
    (desk : Desk) :
    (p.format context e max).runAt desk =
      (p.trace context p.style.maxGroups desk.requests.toList e).printed p.style.lambda max
        desk := by
  generalize ht : p.trace context p.style.maxGroups desk.requests.toList e = t
  have hroom : (Page.blank p.style.maxGroups).limit - (Page.blank p.style.maxGroups).depth =
      p.style.maxGroups := Int.sub_zero _
  have hadds : (p.term context e max).Adds { desk with page := .blank p.style.maxGroups } t.outcome
      (t.record p.style.lambda max 0) := by
    have htraced := p.term_traced context e max { desk with page := .blank p.style.maxGroups }
    rwa [hroom, ht] at htraced
  have htext : (({ desk with page := .blank p.style.maxGroups } : Desk).add
      (t.record p.style.lambda max 0)).page.text = t.text p.style.lambda max := by
    rw [← String.ofList_toList (s := Page.text _), Page.toList_text]
    simp [Desk.add, Page.blank, Trace.record, Trace.text]
  rw [format, Print.runAt_apart hadds, htext]
  rfl

end Printer

/-! ## Traces that do not fail -/

namespace Trace

/-- The sketch of what is printed, unless the run fails. -/
def sketch : Trace → Except Failure Sketch
  | hole kind => .ok (.hole kind)
  | failed x => .error x
  | var index name => .ok (.var index name)
  | unnamed _ x => .error x
  | lam _ binders body => do
    let body ← body.sketch
    return .lam binders body
  | app fn arg => do
    let fn ← fn.sketch
    let arg ← arg.sketch
    return .app fn arg

/-- A trace with a sketch does not fail, and puts down what is sketched. -/
theorem of_sketch_eq_ok {t : Trace} {sketch : Sketch} (h : t.sketch = .ok sketch) :
    t.failure = none ∧ (∀ symbol max, t.marks symbol max = sketch.marks symbol max) ∧
      ∀ depth, t.skips depth = sketch.skips depth := by
  induction t generalizing sketch with
  | hole kind =>
    cases h
    exact ⟨rfl, fun _ _ => rfl, fun _ => rfl⟩
  | failed x => cases h
  | var index name =>
    cases h
    exact ⟨rfl, fun _ _ => rfl, fun _ => rfl⟩
  | unnamed requests x => cases h
  | lam requests binders body ih =>
    obtain ⟨below, hbelow, h⟩ := Failure.bind_eq_ok.1 h
    cases h
    obtain ⟨hfailure, hmarks, hskips⟩ := ih hbelow
    refine ⟨hfailure, ?_, ?_⟩
    · intro symbol max
      rw [marks, hmarks, Sketch.marks]
    · intro depth
      rw [skips, hskips, Sketch.skips]
  | app fn arg ihf iha =>
    obtain ⟨fn', hfn, h⟩ := Failure.bind_eq_ok.1 h
    obtain ⟨arg', harg, h⟩ := Failure.bind_eq_ok.1 h
    cases h
    obtain ⟨hfnFailure, hfnMarks, hfnSkips⟩ := ihf hfn
    obtain ⟨hargFailure, hargMarks, hargSkips⟩ := iha harg
    refine ⟨?_, ?_, ?_⟩
    · rw [failure, hfnFailure, hargFailure]
      rfl
    · intro symbol max
      rw [marks, before_of_ok hfnFailure, hfnMarks, hargMarks, Sketch.marks]
    · intro depth
      rw [skips, before_of_ok hfnFailure, hfnSkips, hargSkips, Sketch.skips]

/-- A trace without a sketch fails. -/
theorem of_sketch_eq_error {t : Trace} {x : Failure} (h : t.sketch = .error x) :
    t.failure = some x := by
  induction t generalizing x with
  | hole kind => cases h
  | failed x' =>
    cases h
    rfl
  | var index name => cases h
  | unnamed requests x' =>
    cases h
    rfl
  | lam requests binders body ih =>
    cases hbody : body.sketch with
    | error x' =>
      rw [sketch, hbody] at h
      cases h
      exact ih hbody
    | ok below =>
      rw [sketch, hbody] at h
      cases h
  | app fn arg ihf iha =>
    cases hfn : fn.sketch with
    | error x' =>
      rw [sketch, hfn] at h
      cases h
      rw [failure, ihf hfn]
      rfl
    | ok fn' =>
      obtain ⟨hfailure, -, -⟩ := of_sketch_eq_ok hfn
      cases harg : arg.sketch with
      | error x' =>
        rw [sketch, hfn, harg] at h
        cases h
        rw [failure, hfailure, iha harg]
        rfl
      | ok arg' =>
        rw [sketch, hfn, harg] at h
        cases h

end Trace

namespace Printer

/-- What is printed for a term in a context when `room` more groups may be opened and no fresh name
was asked for before. -/
def sketch (p : Printer) (context : List String) (room : Int) (e : Term) : Except Failure Sketch :=
  (p.trace context room [] e).sketch

section

variable {p : Printer} (hp : p.freshen.Steady) {context : List String} {e : Term}
include hp

/-- **The text of a term is the text of its sketch**, and what is left out of the text is what the
sketch leaves out. -/
theorem runAt_format {sketch : Sketch} (h : p.sketch context p.style.maxGroups e = .ok sketch)
    (max : Option Int) (desk : Desk) :
    ∃ desk', (p.format context e max).runAt desk =
        (.ok (String.ofList (Mark.chars (sketch.marks p.style.lambda max))), desk') ∧
      desk'.skips = desk.skips ++ (sketch.skips 0).toArray := by
  unfold Printer.sketch at h
  rw [trace_steady hp context _ [] desk.requests.toList] at h
  obtain ⟨hfailure, hmarks, hskips⟩ := Trace.of_sketch_eq_ok h
  refine ⟨((p.format context e max).runAt desk).2, ?_, ?_⟩
  · refine Prod.ext ?_ rfl
    rw [runAt_format_traced, Trace.printed_of_ok hfailure, Trace.text, hmarks]
  · rw [runAt_format_traced, Trace.printed, hskips]

/-- A text is printed only if there is a sketch, and then it is the text of the sketch. -/
theorem format_eq_ok {max : Option Int} {desk desk' : Desk} {text : String}
    (h : (p.format context e max).runAt desk = (.ok text, desk')) :
    ∃ sketch, p.sketch context p.style.maxGroups e = .ok sketch ∧
      text.toList = Mark.chars (sketch.marks p.style.lambda max) ∧
      desk'.skips = desk.skips ++ (sketch.skips 0).toArray := by
  cases hsketch : p.sketch context p.style.maxGroups e with
  | error x =>
    have hfails := Trace.of_sketch_eq_error hsketch
    rw [trace_steady hp context _ [] desk.requests.toList] at hfails
    have herror := Trace.printed_of_failure hfails p.style.lambda max desk
    rw [← runAt_format_traced, h] at herror
    cases herror
  | ok sketch =>
    obtain ⟨desk'', hrun, hskips⟩ := runAt_format hp hsketch max desk
    rw [hrun] at h
    cases h
    exact ⟨sketch, rfl, String.toList_ofList, hskips⟩

end

end Printer

end Nameless
