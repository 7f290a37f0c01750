import Mathlib.Data.List.Flatten
import Nameless.Proofs.Trace

/-!
# What a lower limit on groups leaves out

The limit on groups is looked at on reaching a term, and nowhere else. In particular names are
chosen with a look at the whole body, also where parts of it are left out later. So a run with a
lower limit takes the same steps as before, in the same contexts, and only stops earlier on its way
down.

* **A lower limit cuts the trace** (`Printer.trace_cutOf`): some of its parts become holes, all
  others stay as they are, with the names of their binders and the level that their place allows.
* **What is cut loses marks and gains none**, and gains no failure (`Trace.CutOf.marks_sublist`,
  `Trace.CutOf.failure_eq_none`).
* **If no hole is reached, nothing was cut** before the run ended (`Trace.CutOf.eq_of_whole`).

Together they say that **the limit only deletes output** (`Printer.format_limit_deletes`).
-/

namespace Nameless

namespace Trace

/-- The first trace is the second one with some of its parts left out. -/
inductive CutOf : Trace → Trace → Prop where
  | hole (kind : Term.Kind) (t : Trace) : CutOf (hole kind) t
  | failed (x : Failure) : CutOf (failed x) (failed x)
  | var (index : Nat) (name : String) : CutOf (var index name) (var index name)
  | unnamed (requests : List Name.Query) (x : Failure) :
    CutOf (unnamed requests x) (unnamed requests x)
  | lam (requests : List Name.Query) (binders : List Binder) {body body' : Trace}
    (hbody : CutOf body body') : CutOf (lam requests binders body) (lam requests binders body')
  | app {fn fn' arg arg' : Trace} (hfn : CutOf fn fn') (harg : CutOf arg arg') :
    CutOf (app fn arg) (app fn' arg')

namespace CutOf

/-- Leaving something out makes nothing fail. -/
theorem failure_eq_none {t t' : Trace} (h : t.CutOf t') (hwhole : t'.failure = none) :
    t.failure = none := by
  induction h with
  | hole kind t => rfl
  | failed x => exact hwhole
  | var index name => rfl
  | unnamed requests x => exact hwhole
  | lam requests binders hbody ih => exact ih hwhole
  | app hfn harg ihf iha =>
    obtain ⟨hfnWhole, hargWhole⟩ := Option.or_eq_none_iff.1 hwhole
    exact Option.or_eq_none_iff.2 ⟨ihf hfnWhole, iha hargWhole⟩

/-- Marks in a frame, some of which are left out. -/
theorem framed_sublist {marks marks' : List Mark} (h : marks.Sublist marks') (max : Option Int)
    (level : Int) : (Mark.framed max level marks).Sublist (Mark.framed max level marks') := by
  have hgroup : (Mark.grouped "" marks).Sublist (Mark.grouped "" marks') :=
    (h.append (List.Sublist.refl [Mark.leave])).cons_cons (Mark.enter "")
  unfold Mark.framed
  split
  · exact (hgroup.append (List.Sublist.refl [Mark.closing])).cons_cons Mark.opening
  · exact hgroup

/-- **What is cut loses marks and gains none.** -/
theorem marks_sublist {t t' : Trace} (h : t.CutOf t') (hwhole : t'.failure = none) (symbol : String)
    (max : Option Int) : (t.marks symbol max).Sublist (t'.marks symbol max) := by
  induction h generalizing max with
  | hole kind t => exact List.nil_sublist _
  | failed x => exact List.Sublist.refl _
  | var index name => exact List.Sublist.refl _
  | unnamed requests x => exact List.Sublist.refl _
  | lam requests binders hbody ih =>
    refine framed_sublist (framed_sublist ?_ none Level.lam) max Level.lam
    exact (List.Sublist.refl _).append (ih hwhole none)
  | app hfn harg ihf iha =>
    obtain ⟨hfnWhole, hargWhole⟩ := Option.or_eq_none_iff.1 hwhole
    rw [marks, marks, before_of_ok hfnWhole, before_of_ok (hfn.failure_eq_none hfnWhole)]
    refine framed_sublist ?_ max Level.app
    exact (ihf hfnWhole (some Level.app)).append ((iha hargWhole (some 0)).cons_cons Mark.gap)

/-- So its text has the same characters in the same order, with some of them left out. -/
theorem text_sublist {t t' : Trace} (h : t.CutOf t') (hwhole : t'.failure = none) (symbol : String)
    (max : Option Int) : (t.text symbol max).toList.Sublist (t'.text symbol max).toList := by
  rw [text, text, String.toList_ofList, String.toList_ofList]
  exact (h.marks_sublist hwhole symbol max).flatMap _

/-- **If no hole is reached, nothing was cut**: the two runs do the same and end alike. The argument
of an application may be cut if its function fails, since then it is not reached. -/
theorem eq_of_whole {t t' : Trace} (h : t.CutOf t') {depth : Nat} (hskips : t.skips depth = []) :
    t.failure = t'.failure ∧
      ∀ symbol max depth, t.record symbol max depth = t'.record symbol max depth := by
  induction h generalizing depth with
  | hole kind t => cases hskips
  | failed x => exact ⟨rfl, fun _ _ _ => rfl⟩
  | var index name => exact ⟨rfl, fun _ _ _ => rfl⟩
  | unnamed requests x => exact ⟨rfl, fun _ _ _ => rfl⟩
  | lam requests binders hbody ih =>
    obtain ⟨hfailure, hrecord⟩ := ih hskips
    refine ⟨hfailure, ?_⟩
    intro symbol max depth
    obtain ⟨hmarks, hskips', hrequests⟩ := Record.mk.inj (hrecord symbol none (depth + 2))
    rw [record, record, marks, marks, skips, skips, Trace.requests, Trace.requests, hmarks, hskips',
      hrequests]
  | @app fn fn' arg arg' hfn harg ihf iha =>
    obtain ⟨hfnSkips, hargSkips⟩ := List.append_eq_nil_iff.1 hskips
    obtain ⟨hfnFailure, hfnRecord⟩ := ihf hfnSkips
    cases hfails : fn.failure with
    | some x =>
      have hfails' : fn'.failure = some x := hfnFailure ▸ hfails
      refine ⟨?_, ?_⟩
      · rw [failure, failure, hfails, hfails']
        rfl
      · intro symbol max depth
        obtain ⟨hmarks, hskips', hrequests⟩ :=
          Record.mk.inj (hfnRecord symbol (some Level.app) (depth + 1))
        simp only [record, marks, skips, Trace.requests, before_of_failure hfails,
          before_of_failure hfails', hmarks, hskips', hrequests]
    | none =>
      have hfails' : fn'.failure = none := hfnFailure ▸ hfails
      rw [before_of_ok hfails] at hargSkips
      obtain ⟨hargFailure, hargRecord⟩ := iha hargSkips
      refine ⟨?_, ?_⟩
      · rw [failure, failure, hfails, hfails', hargFailure]
      · intro symbol max depth
        obtain ⟨hmarks, hskips', hrequests⟩ :=
          Record.mk.inj (hfnRecord symbol (some Level.app) (depth + 1))
        obtain ⟨hmarks', hskips'', hrequests'⟩ :=
          Record.mk.inj (hargRecord symbol (some 0) (depth + 1))
        simp only [record, marks, skips, Trace.requests, before_of_ok hfails,
          before_of_ok hfails', hmarks, hskips', hrequests, hmarks', hskips'', hrequests']

end CutOf

end Trace

namespace Printer

/-- The printer with another limit on groups. -/
def limited (p : Printer) (limit : Int) : Printer :=
  { p with style := { p.style with maxGroups := limit } }

/-- The limit plays no part in naming. -/
@[simp] theorem nameBinders_limited (p : Printer) (limit : Int) (context : List String)
    (body : Term) (asked : List Name.Query) (chosen : List Binder) (hints : List String) :
    (p.limited limit).nameBinders context body asked chosen hints =
      p.nameBinders context body asked chosen hints := by
  induction hints generalizing asked chosen with
  | nil => rfl
  | cons hint hints ih =>
    rw [nameBinders, nameBinders]
    simp only [ih]
    rfl

/-- The limit that a printer sets for its pages plays no part in what it does on a given page. -/
@[simp] theorem trace_limited (p : Printer) (limit : Int) (context : List String) (room : Int)
    (asked : List Name.Query) (e : Term) :
    (p.limited limit).trace context room asked e = p.trace context room asked e := by
  fun_induction p.trace context room asked e with
  | case1 context room asked e hle => rw [trace.eq_def, if_pos hle]
  | case2 context room asked hgt loc index name hname => rw [trace, if_neg hgt, hname]
  | case3 context room asked hgt loc index hname => rw [trace, if_neg hgt, hname]
  | case4 context room asked hgt loc s body x hforce => rw [trace, if_neg hgt, hforce]
  | case5 context room asked hgt loc s body r hforce ih =>
    rw [trace, if_neg hgt, hforce]
    exact ih
  | case6 context room asked hgt loc hint body x hrun => rw [trace, if_neg hgt, hrun]
  | case7 context room asked hgt loc hint body hints inner hrun naming x hnames =>
    rw [trace, if_neg hgt, hrun]
    simp only [naming] at hnames
    simp only [nameBinders_limited, hnames, naming]
  | case8 context room asked hgt loc hint body hints inner hrun naming bs hnames ih =>
    have hnaming : (p.limited limit).nameBinders context inner asked [] (hint :: hints).reverse =
        ⟨naming.queries, .ok bs⟩ := by
      rw [nameBinders_limited, ← hnames]
    exact trace_lam (Int.not_le.1 hgt) hrun hnaming ih loc
  | case9 context room asked hgt loc fn arg first ihf iha =>
    exact trace_app (Int.not_le.1 hgt) ihf iha loc
  | case10 context room asked hgt loc => rw [trace, if_neg hgt]

/-- Under another limit, the text is read off the trace with as much room as that limit gives. -/
theorem runAt_format_limited (p : Printer) (limit : Int) (context : List String) (e : Term)
    (max : Option Int) (desk : Desk) :
    ((p.limited limit).format context e max).runAt desk =
      (p.trace context limit desk.requests.toList e).printed p.style.lambda max desk := by
  rw [runAt_format_traced, trace_limited]
  rfl

/-- **A lower limit cuts the trace.** What is left out is not asked for, so the answers to what is
asked for have to be the same whatever was asked before. -/
theorem trace_cutOf {p : Printer} (hp : p.freshen.Steady) (context : List String)
    {room room' : Int} (h : room ≤ room') (asked : List Name.Query) (e : Term) :
    (p.trace context room asked e).CutOf (p.trace context room' asked e) := by
  fun_induction p.trace context room asked e generalizing room' with
  | case1 context room asked e hle => exact .hole e.kind _
  | case2 context room asked hgt loc index name hname =>
    rw [trace_var (by omega) hname]
    exact .var index.toNat name
  | case3 context room asked hgt loc index hname =>
    rw [trace, if_neg (by omega), hname]
    exact .failed _
  | case4 context room asked hgt loc s body x hforce =>
    rw [trace, if_neg (by omega), hforce]
    exact .failed x
  | case5 context room asked hgt loc s body r hforce ih =>
    rw [trace, if_neg (by omega), hforce]
    exact ih h
  | case6 context room asked hgt loc hint body x hrun =>
    rw [trace, if_neg (by omega), hrun]
    exact .unnamed [] x
  | case7 context room asked hgt loc hint body hints inner hrun naming x =>
    rename_i hnames
    simp only [naming] at hnames
    rw [trace, if_neg (by omega), hrun]
    simp only [hnames]
    exact .unnamed _ x
  | case8 context room asked hgt loc hint body hints inner hrun naming bs hnames =>
    rename_i ih
    have hnaming : p.nameBinders context inner asked [] (hint :: hints).reverse =
        ⟨naming.queries, .ok bs⟩ := by
      rw [← hnames]
    rw [trace_lam (by omega) hrun hnaming rfl]
    exact .lam _ bs (ih (by omega))
  | case9 context room asked hgt loc fn arg first ihf =>
    rename_i iha
    rw [trace_app (by omega) rfl (trace_steady hp context _ _ (asked ++ first.requests) arg)]
    exact .app (ihf (by omega)) (iha (by omega))
  | case10 context room asked hgt loc =>
    rw [trace, if_neg (by omega)]
    exact .failed _

/-- **The limit on groups only deletes output.** Let the answers to requests for fresh names ignore
what was asked before. If printing succeeds under a limit, then it does so
under every lower one, and the text has the same characters in the same order, with some of them
left out. If nothing is left out under a limit, then every higher one gives the same outcome, text
and fresh names. In any case the lower limit cuts the trace that the text is read off: what is still
printed is printed with the same names, at the same level. -/
theorem format_limit_deletes {p : Printer} (hp : p.freshen.Steady) {low high : Int}
    (h : low ≤ high) (context : List String) (e : Term) (max : Option Int) (desk : Desk) :
    let lower := ((p.limited low).format context e max).runAt desk
    let higher := ((p.limited high).format context e max).runAt desk
    (∀ text', higher.1 = .ok text' →
      ∃ text, lower.1 = .ok text ∧ text.toList.Sublist text'.toList) ∧
    (lower.2.skips = desk.skips → higher = lower) ∧
    ∃ t t' : Trace, t.CutOf t' ∧ lower = t.printed p.style.lambda max desk ∧
      higher = t'.printed p.style.lambda max desk := by
  intro lower higher
  have hcut := trace_cutOf hp context h desk.requests.toList e
  have hlower := p.runAt_format_limited low context e max desk
  have hhigher := p.runAt_format_limited high context e max desk
  generalize p.trace context low desk.requests.toList e = t at hcut hlower
  generalize p.trace context high desk.requests.toList e = t' at hcut hhigher
  refine ⟨?_, ?_, t, t', hcut, hlower, hhigher⟩
  · intro text' htext'
    rw [show higher = _ from hhigher] at htext'
    cases hwhole : t'.failure with
    | some x =>
      rw [Trace.printed_of_failure hwhole] at htext'
      cases htext'
    | none =>
      rw [Trace.printed_of_ok hwhole] at htext'
      cases htext'
      refine ⟨t.text p.style.lambda max, ?_, hcut.text_sublist hwhole p.style.lambda max⟩
      rw [show lower = _ from hlower, Trace.printed_of_ok (hcut.failure_eq_none hwhole)]
  · intro hskips
    rw [show lower = _ from hlower, Trace.skips_printed_iff] at hskips
    obtain ⟨hfailure, hrecord⟩ := hcut.eq_of_whole hskips
    obtain ⟨hmarks, hskips', hrequests⟩ := Record.mk.inj (hrecord p.style.lambda max 0)
    rw [show lower = _ from hlower, show higher = _ from hhigher, Trace.printed, Trace.printed,
      Trace.outcome, Trace.outcome, Trace.text, Trace.text, hfailure, hmarks, hskips', hrequests]

/-- Under the limit `4` the body of the abstraction in `x (λ y. x y)` is left out, except for its
gap. Its binder still has the name of a variable that is used. -/
theorem format_limit_deletes_body :
    let p : Printer := {}
    let e := Term.app none (.var none 0) (.lam none "y" (.app none (.var none 1) (.var none 0)))
    p.freshen.Steady ∧ (4 : Int) ≤ 200 ∧
      (((p.limited 4).format ["x"] e none).runAt (.blank 4)).1 = .ok "x (λ y .  )" ∧
      (((p.limited 200).format ["x"] e none).runAt (.blank 4)).1 = .ok "x (λ y . x y)" ∧
      "x (λ y .  )".toList.Sublist "x (λ y . x y)".toList := by
  intro p e
  let body := Term.app none (.var none 1) (.var none 0)
  have hrun : body.run = .ok ([], body) := by
    rw [Term.run]
    rfl
  have hused : body.occurs (([] : List Binder).length : Int) = .ok true := by
    simp [body, Term.occurs, Term.search_cons, Term.expose, bind, Except.bind]
  have hname : p.nameFor [] true ("y", ["x"]) = .ok "y" := rfl
  have hnames : p.nameBinders ["x"] body [] [] ["y"] = ⟨[("y", ["x"])], .ok [⟨"y", true⟩]⟩ :=
    nameBinders_cons hused hname []
  have htrace (room : Int) (h : 3 < room) : p.trace ["x"] room [] e = .app (.var 0 "x")
      (.lam [("y", ["x"])] [⟨"y", true⟩]
        (p.trace ["y", "x"] (room - 1 - 2) [("y", ["x"])] body)) :=
    trace_app (by omega) (trace_var (by omega) rfl [] none)
      (trace_lam (by omega) hrun hnames rfl none) none
  have hcut : p.trace ["x"] 4 [] e = .app (.var 0 "x")
      (.lam [("y", ["x"])] [⟨"y", true⟩] (.app (.hole .var) (.hole .var))) := by
    rw [htrace 4 (by decide)]
    simp [body, trace, Term.kind]
  have hwhole : p.trace ["x"] 200 [] e = .app (.var 0 "x")
      (.lam [("y", ["x"])] [⟨"y", true⟩] (.app (.var 1 "x") (.var 0 "y"))) := by
    rw [htrace 200 (by decide)]
    simp [body, trace, nameAt?]
  have hblank : (Desk.blank 4).requests.toList = [] := rfl
  have hlower : (((p.limited 4).format ["x"] e none).runAt (.blank 4)).1 = .ok "x (λ y .  )" := by
    have htext : (Trace.app (.var 0 "x")
        (.lam [("y", ["x"])] [⟨"y", true⟩] (.app (.hole .var) (.hole .var)))).text "λ" none =
          "x (λ y .  )" := rfl
    rw [runAt_format_limited, hblank, hcut, Trace.printed_of_ok rfl]
    exact congrArg Except.ok htext
  have hhigher : (((p.limited 200).format ["x"] e none).runAt (.blank 4)).1 =
      .ok "x (λ y . x y)" := by
    have htext : (Trace.app (.var 0 "x")
        (.lam [("y", ["x"])] [⟨"y", true⟩] (.app (.var 1 "x") (.var 0 "y")))).text "λ" none =
          "x (λ y . x y)" := rfl
    rw [runAt_format_limited, hblank, hwhole, Trace.printed_of_ok rfl]
    exact congrArg Except.ok htext
  have hsteady : p.freshen.Steady := Name.Freshen.counting_steady
  refine ⟨hsteady, by decide, hlower, hhigher, ?_⟩
  obtain ⟨text, htext, hsublist⟩ := (format_limit_deletes hsteady (show (4 : Int) ≤ 200 by decide)
    ["x"] e none (.blank 4)).1 _ hhigher
  rw [hlower] at htext
  cases htext
  exact hsublist

end Printer

end Nameless
