import Nameless.Proofs.Limit

/-!
# Printing on a page that is in use

A term can be printed on a page that holds other output already and has groups open. All that
printing sees of this is how many more groups may be opened. So it does there what it does on a
blank page that allows just as many groups: the same marks, the same fresh names asked for, the same
outcome, also when it fails on the way. A subterm that is left out is noted with the number of
groups that are open in all.

* **Open groups around a run only add to the depths of what it leaves out** (`Trace.skips_add`).
* **A term is printed on any page as on a blank one** (`Printer.term_embedded`).
-/

namespace Nameless

/-- A subterm that is left out, seen from outside of a number of open groups. -/
def Skip.inside (depth : Nat) (skip : Skip) : Skip := { skip with depth := depth + skip.depth }

/-- Open groups around a run only add to the depths of what it leaves out. -/
theorem Trace.skips_add (t : Trace) (depth more : Nat) :
    t.skips (depth + more) = (t.skips more).map (Skip.inside depth) := by
  induction t generalizing more with
  | hole kind => rfl
  | failed x => rfl
  | var index name => rfl
  | unnamed requests x => rfl
  | lam requests binders body ih => exact ih (more + 2)
  | app fn arg ihf iha =>
    have hfn : fn.skips (depth + more + 1) = _ := ihf (more + 1)
    have harg : arg.skips (depth + more + 1) = _ := iha (more + 1)
    rw [skips, skips, List.map_append, hfn, harg]
    cases hfailure : fn.failure with
    | none => rw [before_of_ok hfailure, before_of_ok hfailure]
    | some x => rw [before_of_failure hfailure, before_of_failure hfailure, List.map_nil]

/-- What is added to a page is read after what the page holds. -/
theorem Desk.text_add (desk : Desk) (r : Record) :
    (desk.add r).page.text = desk.page.text ++ String.ofList (Mark.chars r.marks) := by
  rw [String.ext_iff, String.toList_append, Page.toList_text, Page.toList_text]
  simp [add]

namespace Printer

/-- **A term is printed on any page as on a blank one.** Let the answers to requests for fresh names
ignore what was asked before. On a page on which `room` more groups may be opened, whatever it
holds, printing a term has the same outcome as on a blank page with the limit `room`, and it leaves
the page with the same groups open. It adds just the marks, the text and the requests for fresh
names that it puts on the blank page, also if it fails, and leaves the same subterms out, inside the
groups that are open. The text on a page of its own under the limit `room` is that text, or fails
alike, and asks for the same fresh names. -/
theorem term_embedded {p : Printer} (hp : p.freshen.Steady) (context : List String) (e : Term)
    (max : Option Int) (desk : Desk) :
    let room := desk.page.limit - desk.page.depth
    let here := (p.term context e max).runAt desk
    let alone := (p.term context e max).runAt (.blank room)
    let apart := ((p.limited room).format context e max).runAt desk
    here.1 = alone.1 ∧
      here.2.page = { desk.page with marks := desk.page.marks ++ alone.2.page.marks } ∧
      here.2.page.text = desk.page.text ++ alone.2.page.text ∧
      here.2.requests = desk.requests ++ alone.2.requests ∧
      here.2.skips = desk.skips ++ alone.2.skips.map (Skip.inside desk.page.depth) ∧
      apart.1 = here.1.map (fun _ => alone.2.page.text) ∧
      apart.2 = { here.2 with page := desk.page, skips := desk.skips ++ alone.2.skips } := by
  intro room here alone apart
  have hroom : (Desk.blank room).page.limit - (Desk.blank room).page.depth = room := Int.sub_zero _
  have hhere := p.term_traced context e max desk
  have halone := p.term_traced context e max (.blank room)
  have hapart := p.runAt_format_limited room context e max desk
  rw [hroom, trace_steady hp context room _ desk.requests.toList e] at halone
  -- one trace tells all three runs
  generalize p.trace context room desk.requests.toList e = t at hhere halone hapart
  have hhere' : here = (t.outcome, desk.add (t.record p.style.lambda max desk.page.depth)) := hhere
  have halone' : alone = (t.outcome, (Desk.blank room).add (t.record p.style.lambda max 0)) :=
    halone
  have htext : alone.2.page.text = t.text p.style.lambda max := by
    rw [halone', Desk.text_add]
    exact String.empty_append
  have hskips : t.skips desk.page.depth = (t.skips 0).map (Skip.inside desk.page.depth) :=
    t.skips_add desk.page.depth 0
  rw [show apart = _ from hapart, htext, hhere', halone']
  refine ⟨rfl, ?_, desk.text_add _, ?_, ?_, rfl, ?_⟩
  · simp [Desk.add, Desk.blank, Page.blank, Trace.record]
  · simp [Desk.add, Desk.blank, Trace.record]
  · simp [Desk.add, Desk.blank, Trace.record, hskips]
  · simp [Desk.add, Desk.blank, Trace.printed, Trace.record]

/-- In the context `x`, the argument of the application `0 1` has no name. On a page that holds a
text and an open group already, its function and the gap are added to the text before printing
fails, just as on a blank page. -/
theorem term_embedded_nameless :
    let p : Printer := {}
    let e := Term.app none (.var none 0) (.var none 1)
    let desk : Desk := { page := ((Page.blank 5).putText "a").enter "g", requests := #[("z", [])] }
    let here := (p.term ["x"] e none).runAt desk
    let alone := (p.term ["x"] e none).runAt (.blank 4)
    p.freshen.Steady ∧ here.1 = .error (.raise (.nameless 1 1 none)) ∧ here.1 = alone.1 ∧
      here.2.page.text = "ax " ∧ alone.2.page.text = "x " ∧ here.2.page.groups = ["g"] := by
  intro p e desk here alone
  have hsteady : p.freshen.Steady := Name.Freshen.counting_steady
  have htrace : p.trace ["x"] 4 [] e =
      .app (.var 0 "x") (.failed (.raise (.nameless 1 1 none))) := by
    refine trace_app (by decide) (trace_var (by decide) rfl [] none) ?_ none
    rw [trace]
    rfl
  have hroom : (Desk.blank 4).page.limit - (Desk.blank 4).page.depth = 4 := Int.sub_zero 4
  have htraced := p.term_traced ["x"] e none (.blank 4)
  rw [hroom, show (Desk.blank 4).requests.toList = [] from rfl, htrace] at htraced
  have hrun : alone = _ := htraced
  have halone : alone.2.page.text = "x " := by
    rw [hrun]
    decide
  obtain ⟨houtcome, hpage, htext, -⟩ := term_embedded hsteady ["x"] e none desk
  have hsame : here.1 = alone.1 := houtcome
  have hboth : here.2.page.text = "a" ++ alone.2.page.text := htext
  refine ⟨hsteady, ?_, hsame, ?_, halone, ?_⟩
  · rw [hsame, hrun]
    rfl
  · rw [hboth, halone]
    decide
  · rw [hpage]
    rfl

end Printer

end Nameless
