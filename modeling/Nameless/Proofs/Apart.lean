import Mathlib.Data.List.Nodup
import Nameless.Proofs.FreshName
import Nameless.Proofs.Occurrence
import Nameless.Proofs.Trace

/-!
# Printed names stay apart

A printer is **honest** if the fresh names that it gives are really fresh: none is among the names
that were taken, and none is the placeholder. This alone keeps printed names apart, however the
printer comes by its fresh names. Indices may be negative here, nodes of no known shape may occur,
and a run may fail on its way.

The placeholder is given to the binders that the search for a free index does not find in use. So
what has to be known of a scope is that it has no other name twice, and that no walk down the term
meets a variable whose place in the scope holds the placeholder.

* **What the search does not find is not met** (`Term.not_meets_of_occurs`), wherever the walk goes
  and however often it exposes a node on its way.
* **A binder list keeps the scope apart** (`Printer.nameBinders_apart`).
* **So it stays all the way down** (`Printer.trace_apart`), and therefore in every run
  (`Printer.format_names_apart`).
-/

namespace Nameless

namespace Term

/-! ## Variables that a walk meets -/

/-- A walk down a term, which exposes one node after the other, meets a variable that has index `k`
at the root of the term. -/
inductive Meets : Term → Int → Prop where
  | var {e : Term} {loc : Option Span} {k : Int} (hexp : e.expose = .ok (var loc k)) : Meets e k
  | lam {e body : Term} {loc : Option Span} {hint : String} {k : Int}
    (hexp : e.expose = .ok (lam loc hint body)) (hbody : Meets body (k + 1)) : Meets e k
  | fn {e fn arg : Term} {loc : Option Span} {k : Int} (hexp : e.expose = .ok (app loc fn arg))
    (hfn : Meets fn k) : Meets e k
  | arg {e fn arg : Term} {loc : Option Span} {k : Int} (hexp : e.expose = .ok (app loc fn arg))
    (harg : Meets arg k) : Meets e k

namespace Meets

/-- What is met below an exposed head is met in the term. -/
theorem of_expose {e r : Term} {k : Int} (h : e.expose = .ok r) (hr : r.Meets k) : e.Meets k := by
  have hsame : r.expose = e.expose := (expose_of_expose h).trans h.symm
  cases hr with
  | var hexp => exact .var (hsame ▸ hexp)
  | lam hexp hbody => exact .lam (hsame ▸ hexp) hbody
  | fn hexp hfn => exact .fn (hsame ▸ hexp) hfn
  | arg hexp harg => exact .arg (hsame ▸ hexp) harg

/-- What is met below a run of abstractions is met in the term, with an index that counts from
further out. -/
theorem of_run {e inner : Term} {hints : List String} {k : Int} (h : e.run = .ok (hints, inner))
    (hinner : inner.Meets (k + hints.length)) : e.Meets k := by
  fun_induction Term.run e generalizing hints k with
  | case1 e x hexp => cases h
  | case2 e loc hint body hexp ih =>
    obtain ⟨found, hrun, h⟩ := Failure.bind_eq_ok.1 h
    cases h
    refine .lam hexp (ih hrun ?_)
    rwa [List.length_cons, Int.natCast_add, Int.natCast_one, Int.add_comm found.1.length,
      ← Int.add_assoc] at hinner
  | case3 e inner' hlam hexp =>
    cases h
    rw [List.length_nil, Int.natCast_zero, Int.add_zero] at hinner
    exact hinner.of_expose hexp

end Meets

/-- A search that ends without a hit has looked at all that a walk meets. -/
theorem not_meets_of_search {agenda : Agenda} (h : search agenda = .ok false) :
    ∀ entry ∈ agenda, ¬ entry.2.Meets entry.1 := by
  fun_induction search agenda with
  | case1 =>
    intro entry hentry
    cases hentry
  | case2 target node rest x hexp => cases h
  | case3 target node rest loc hexp => cases h
  | case4 target node rest loc index hexp hne ih =>
    rw [List.forall_mem_cons]
    refine ⟨?_, ih h⟩
    intro hmeets
    cases hmeets with
    | var hexp' =>
      rw [hexp] at hexp'
      cases hexp'
      exact hne rfl
    | lam hexp' | fn hexp' | arg hexp' =>
      rw [hexp] at hexp'
      cases hexp'
  | case5 target node rest loc hint body hexp ih =>
    obtain ⟨hbody, hrest⟩ := List.forall_mem_cons.1 (ih h)
    rw [List.forall_mem_cons]
    refine ⟨?_, hrest⟩
    intro hmeets
    cases hmeets with
    | lam hexp' hbody' =>
      rw [hexp] at hexp'
      cases hexp'
      exact hbody hbody'
    | var hexp' | fn hexp' | arg hexp' =>
      rw [hexp] at hexp'
      cases hexp'
  | case6 target node rest loc fn arg hexp ih =>
    obtain ⟨hfn, hrest⟩ := List.forall_mem_cons.1 (ih h)
    obtain ⟨harg, hrest⟩ := List.forall_mem_cons.1 hrest
    rw [List.forall_mem_cons]
    refine ⟨?_, hrest⟩
    intro hmeets
    cases hmeets with
    | fn hexp' hfn' =>
      rw [hexp] at hexp'
      cases hexp'
      exact hfn hfn'
    | arg hexp' harg' =>
      rw [hexp] at hexp'
      cases hexp'
      exact harg harg'
    | var hexp' | lam hexp' =>
      rw [hexp] at hexp'
      cases hexp'
  | case7 target node rest r hvar hlam happ hexp => cases h

/-- **What the search does not find is not met.** -/
theorem not_meets_of_occurs {e : Term} {k : Int} (h : e.occurs k = .ok false) : ¬ e.Meets k :=
  not_meets_of_search h (k, e) List.mem_cons_self

end Term

/-! ## Scopes -/

/-- The names in scope are apart from each other: no name occurs twice, except for a placeholder. -/
def Apart (placeholder : String) (names : List String) : Prop :=
  (names.filter (· ≠ placeholder)).Nodup

namespace Apart

variable {placeholder : String}

/-- Names that are all different are apart. -/
theorem of_nodup {names : List String} (h : names.Nodup) : Apart placeholder names :=
  h.filter _

/-- The placeholder may stand anywhere. -/
theorem insert_placeholder {inner outer : List String} (h : Apart placeholder (inner ++ outer)) :
    Apart placeholder (inner ++ placeholder :: outer) := by
  unfold Apart at h ⊢
  rw [List.filter_append] at h ⊢
  rwa [List.filter_cons_of_neg (by simp)]

/-- A new name may stand anywhere. -/
theorem insert {inner outer : List String} {name : String} (h : Apart placeholder (inner ++ outer))
    (hnew : name ∉ inner ++ outer) : Apart placeholder (inner ++ name :: outer) := by
  by_cases hname : name = placeholder
  · rw [hname]
    exact h.insert_placeholder
  · unfold Apart at h ⊢
    rw [List.filter_append, List.filter_cons_of_pos (by simpa using hname), List.nodup_middle,
      ← List.filter_append, List.nodup_cons]
    refine ⟨?_, h⟩
    intro hmem
    exact hnew (List.mem_of_mem_filter hmem)

/-- A name in scope has one place only, unless it is the placeholder. -/
theorem place_unique {names : List String} (h : Apart placeholder names) {i j : Nat} {name : String}
    (hi : names[i]? = some name) (hj : names[j]? = some name) (hname : name ≠ placeholder) :
    j = i := by
  unfold Apart List.Nodup at h
  rw [List.pairwise_filter, List.pairwise_iff_getElem] at h
  obtain ⟨hilt, hi⟩ := List.getElem?_eq_some_iff.1 hi
  obtain ⟨hjlt, hj⟩ := List.getElem?_eq_some_iff.1 hj
  rcases Nat.lt_trichotomy i j with hlt | heq | hgt
  · exact absurd (hi.trans hj.symm) (h i j hilt hjlt hlt (by simpa [hi]) (by simpa [hj]))
  · exact heq.symm
  · exact absurd (hj.trans hi.symm) (h j i hjlt hilt hgt (by simpa [hj]) (by simpa [hi]))

end Apart

/-! ## Printing -/

/-- A place that a printing run comes to: the names in scope there, innermost first, and the
variable that is printed there, if it is the place of one. -/
structure Visit where
  context : List String
  printed : Option (Nat × String)
deriving DecidableEq, Repr

/-- The places that a run comes to, one for each term that it is to print. -/
def Trace.visits : List String → Trace → List Visit
  | context, hole _ => [⟨context, none⟩]
  | context, failed _ => [⟨context, none⟩]
  | context, var index name => [⟨context, some (index, name)⟩]
  | context, unnamed _ _ => [⟨context, none⟩]
  | context, lam _ binders body =>
    ⟨context, none⟩ :: body.visits (binders.map Binder.name ++ context)
  | context, app fn arg => ⟨context, none⟩ :: (fn.visits context ++ fn.before (arg.visits context))

/-- At this place the names in scope are apart. If a variable is printed, it is printed by the name
at its own index, which is not the placeholder and is at no other index. -/
structure Visit.Apart (placeholder : String) (v : Visit) : Prop where
  names : Nameless.Apart placeholder v.context
  own : ∀ k name, v.printed = some (k, name) → v.context[k]? = some name
  not_placeholder : ∀ k name, v.printed = some (k, name) → name ≠ placeholder
  only : ∀ k name, v.printed = some (k, name) → ∀ j, v.context[j]? = some name → j = k

/-- Where no variable is printed, all that counts is the scope. -/
theorem Apart.visit {placeholder : String} {context : List String} (h : Apart placeholder context) :
    Visit.Apart placeholder ⟨context, none⟩ where
  names := h
  own := by
    intro k name hprinted
    cases hprinted
  not_placeholder := by
    intro k name hprinted
    cases hprinted
  only := by
    intro k name hprinted
    cases hprinted

namespace Printer

/-- The fresh names that the printer gives are none of those taken, and not the placeholder,
whatever it was asked before. -/
def Honest (p : Printer) : Prop := ∀ asked hint taken name,
  p.freshen asked hint taken = .ok name → name ∉ taken ∧ name ≠ p.style.placeholder

/-- The name of a binder is fresh or the placeholder, and only an unused binder has the placeholder
for its name. -/
theorem Honest.nameFor {p : Printer} (hp : p.Honest) {asked : List Name.Query} {used : Bool}
    {query : Name.Query} {name : String} (h : p.nameFor asked used query = .ok name) :
    (name ∉ query.2 ∨ name = p.style.placeholder) ∧
      (name = p.style.placeholder → used = false) := by
  unfold Printer.nameFor at h
  cases used with
  | false => exact ⟨.inr (Except.ok.inj h).symm, fun _ => rfl⟩
  | true =>
    obtain ⟨hnew, hname⟩ := hp asked query.1 query.2 name h
    exact ⟨.inl hnew, fun heq => absurd heq hname⟩

/-- **A binder list keeps the scope apart**, and only binders that are never met below it have the
placeholder for their name. The induction is over the hints that are left; what is apart is the
scope with the binders chosen so far in front. -/
theorem nameBinders_apart {p : Printer} (hp : p.Honest) {context : List String} {body : Term}
    {asked : List Name.Query} {chosen bs : List Binder} {hints : List String}
    (h : (p.nameBinders context body asked chosen hints).outcome = .ok bs)
    (hapart : Apart p.style.placeholder (chosen.map Binder.name ++ context))
    (hunmet : ∀ i : Nat, (chosen.map Binder.name)[i]? = some p.style.placeholder →
      ¬ body.Meets i) :
    Apart p.style.placeholder (bs.map Binder.name ++ context) ∧
      ∀ i : Nat, (bs.map Binder.name)[i]? = some p.style.placeholder → ¬ body.Meets i := by
  induction hints generalizing asked chosen with
  | nil =>
    cases h
    exact ⟨hapart, hunmet⟩
  | cons hint hints ih =>
    obtain ⟨used, name, hused, hname, h⟩ := nameBinders_cons_eq_ok h
    obtain ⟨hnew, hplaceholder⟩ := hp.nameFor hname
    let next : List Binder := chosen ++ [⟨name, used⟩]
    have hnext : Apart p.style.placeholder (next.map Binder.name ++ context) := by
      rw [List.map_append, List.append_assoc]
      rcases hnew with hnew | hnew
      · refine hapart.insert ?_
        rwa [List.mem_append, or_comm, ← List.mem_append]
      · rw [hnew]
        exact hapart.insert_placeholder
    have hnextUnmet (i : Nat)
        (hi : (next.map Binder.name)[i]? = some p.style.placeholder) :
        ¬ body.Meets i := by
      rw [List.map_append, List.getElem?_append] at hi
      split at hi
      · exact hunmet i hi
      · rename_i hge
        obtain ⟨hlt, hlast⟩ := List.getElem?_eq_some_iff.1 hi
        have hi' : i = chosen.length := by
          simp at hge hlt
          omega
        have hplain : used = false := hplaceholder (by simpa [hi'] using hlast)
        rw [hplain] at hused
        rw [hi']
        exact Term.not_meets_of_occurs hused
    exact ih h hnext hnextUnmet

/-- **Names stay apart all the way down.** What has to be known of the scope is that it is apart,
and that no walk down the term meets a variable whose place holds the placeholder. -/
theorem trace_apart {p : Printer} (hp : p.Honest) {context : List String} {e : Term}
    (hapart : Apart p.style.placeholder context)
    (hunmet : ∀ i : Nat, context[i]? = some p.style.placeholder → ¬ e.Meets i) (room : Int)
    (asked : List Name.Query) :
    ∀ v ∈ (p.trace context room asked e).visits context, v.Apart p.style.placeholder := by
  fun_induction p.trace context room asked e with
  | case1 | case3 | case4 | case6 | case7 | case10 =>
    intro v hv
    rw [List.mem_singleton.1 hv]
    exact hapart.visit
  | case2 context room asked hgt loc index name hname =>
    obtain ⟨hindex, hname⟩ : ¬ index < 0 ∧ context[index.toNat]? = some name := by
      unfold nameAt? at hname
      split at hname
      · cases hname
      · exact ⟨‹_›, hname⟩
    have hcast : (index.toNat : Int) = index := Int.toNat_of_nonneg (by omega)
    have hused : name ≠ p.style.placeholder := by
      intro heq
      apply hunmet index.toNat (heq ▸ hname)
      rw [hcast]
      exact .var rfl
    intro v hv
    rw [List.mem_singleton.1 hv]
    refine ⟨hapart, ?_, ?_, ?_⟩
    · rintro k name' ⟨⟩
      exact hname
    · rintro k name' ⟨⟩
      exact hused
    · rintro k name' ⟨⟩ j hj
      exact hapart.place_unique hname hj hused
  | case5 context room asked hgt loc s body r hforce ih =>
    refine ih hapart ?_
    intro i hi hmeets
    exact hunmet i hi (hmeets.of_expose hforce)
  | case8 context room asked hgt loc hint body hints inner hrun naming bs hnames =>
    rename_i ih
    have hnone : ∀ i : Nat, (([] : List Binder).map Binder.name)[i]? = some p.style.placeholder →
        ¬ inner.Meets i := by
      intro i hi
      cases hi
    obtain ⟨hbs, hbsUnmet⟩ := nameBinders_apart hp hnames hapart hnone
    have hrun' : (Term.lam loc hint body).run = .ok (hint :: hints, inner) :=
      Term.run_lam hrun loc hint
    rw [Trace.visits, List.forall_mem_cons]
    refine ⟨hapart.visit, ih hbs ?_⟩
    -- an index of the body belongs to the binder list or, counted from further out, to the scope
    intro i hi hmeets
    rw [List.getElem?_append, List.length_map, nameBinders_length hnames, List.length_nil,
      Nat.zero_add, List.length_reverse] at hi
    split at hi
    · exact hbsUnmet i hi hmeets
    · rename_i hge
      refine hunmet _ hi (Term.Meets.of_run hrun' ?_)
      rwa [Int.natCast_sub (Nat.le_of_not_lt hge), Int.sub_add_cancel]
  | case9 context room asked hgt loc fn arg first ihf iha =>
    have hfn := ihf hapart fun i hi hmeets => hunmet i hi (.fn rfl hmeets)
    have harg := iha hapart fun i hi hmeets => hunmet i hi (.arg rfl hmeets)
    rw [Trace.visits, List.forall_mem_cons]
    refine ⟨hapart.visit, ?_⟩
    intro v hv
    rcases List.mem_append.1 hv with hv | hv
    · exact hfn v hv
    · unfold Trace.before at hv
      split at hv
      · exact harg v hv
      · cases hv

/-- **Printed names stay apart, in every run.** Let the printer be honest, and let the context hold
no name twice and not the placeholder. Then whatever is printed, and however the run ends, the names
in scope are apart at all places that the run comes to, and a variable that is printed has a name
that is not the placeholder and is in scope at the index of the variable and nowhere else. So no
variable refers to a binder that is printed as the placeholder. -/
theorem format_names_apart {p : Printer} (hp : p.Honest) {context : List String}
    (hcontext : context.Nodup) (hplaceholder : p.style.placeholder ∉ context) (e : Term)
    (max : Option Int) (desk : Desk) :
    let t := p.trace context p.style.maxGroups desk.requests.toList e
    (p.format context e max).runAt desk = t.printed p.style.lambda max desk ∧
      ∀ v ∈ t.visits context, v.Apart p.style.placeholder := by
  intro t
  refine ⟨p.runAt_format_traced context e max desk, ?_⟩
  refine trace_apart hp (.of_nodup hcontext) ?_ p.style.maxGroups _
  intro i hi _
  exact hplaceholder (List.mem_of_getElem? hi)

end Printer

/-- Fresh names by numbering the requests: `g1` for the first one, `g2` for the second, and so on.
Numbers that are taken are skipped. -/
def Name.Freshen.numbering : Name.Freshen := fun asked _ taken =>
  (firstUnused "g" (asked.length + 1) taken).mapError .digits

namespace Printer

/-- Numbering is honest: a number makes a name that is not taken, and is not the placeholder. -/
theorem honest_numbering : Honest { freshen := .numbering } := by
  intro asked hint taken name h
  have hname : Name.firstUnused "g" (asked.length + 1) taken = .ok name :=
    Name.mapError_digits_eq_ok.1 h
  obtain ⟨hnew, counter, -, rfl⟩ := Name.firstUnused_eq_ok hname
  have hcounted : Name.Counted "g" ("g" ++ Decimal.text counter) :=
    ⟨"g", fun c hc => hc, counter, rfl⟩
  exact ⟨hnew, hcounted.ne_placeholder⟩

/-- A number that is not taken is the name. -/
theorem numbering_eq_ok (asked : List Name.Query) (hint : String) {taken : List String}
    (hw : Decimal.Writable (asked.length + 1 : Nat))
    (h : "g" ++ Decimal.text (asked.length + 1 : Nat) ∉ taken) :
    Name.Freshen.numbering asked hint taken =
      .ok ("g" ++ Decimal.text (asked.length + 1 : Nat)) :=
  Name.mapError_digits_eq_ok.2 (Name.firstUnused_of_not_mem hw h)

/-- In the context `a`, the term `(λx. 0) (λx. 0 1)` is printed as `(λ g1 . g1) (λ g2 . g2 a)` when
names are numbered, where index `1` is index `0` under a shift that waits. The binder of the
argument gets another name than that of the function, since one more name was asked for. -/
theorem format_names_apart_numbered :
    let p : Printer := { freshen := .numbering }
    let e := Term.app none (.lam none "x" (.var none 0)) (.lam none "x"
      (.app none (.var none 0) (.pending none (.shift 1) (.var none 0))))
    let v : Visit := ⟨["g2", "a"], some (1, "a")⟩
    p.Honest ∧ ["a"].Nodup ∧ p.style.placeholder ∉ ["a"] ∧
      ((p.format ["a"] e none).runAt (.blank 200)).1 = .ok "(λ g1 . g1) (λ g2 . g2 a)" ∧
      v ∈ (p.trace ["a"] p.style.maxGroups [] e).visits ["a"] ∧ v.Apart p.style.placeholder := by
  intro p e v
  let body := Term.app none (.var none 0) (.pending none (.shift 1) (.var none 0))
  have hrunFn : (Term.var none 0).run = .ok ([], .var none 0) := by rw [Term.run_eq]; rfl
  have hrunArg : body.run = .ok ([], body) := by rw [Term.run_eq]; rfl
  have hnamesFn : p.nameBinders ["a"] (.var none 0) [] [] ["x"] =
      ⟨[("x", ["a"])], .ok [⟨"g1", true⟩]⟩ := by
    have hused : (Term.var none 0).occurs (([] : List Binder).length : Int) = .ok true :=
      Term.occurs_regular (by decide) 0
    have hname : p.nameFor [] true ("x", ["a"]) = .ok "g1" :=
      numbering_eq_ok [] "x" (Decimal.writable_of_natAbs_lt (by decide)) (by decide)
    exact nameBinders_cons hused hname []
  have hnamesArg : p.nameBinders ["a"] body [("x", ["a"])] [] ["x"] =
      ⟨[("x", ["a"])], .ok [⟨"g2", true⟩]⟩ := by
    have hused : body.occurs (([] : List Binder).length : Int) = .ok true :=
      Term.occurs_regular (by decide) 0
    have hname : p.nameFor [("x", ["a"])] true ("x", ["a"]) = .ok "g2" :=
      numbering_eq_ok [_] "x" (Decimal.writable_of_natAbs_lt (by decide)) (by decide)
    exact nameBinders_cons hused hname []
  have hfn : p.trace ["a"] 199 [] (.lam none "x" (.var none 0)) =
      .lam [("x", ["a"])] [⟨"g1", true⟩] (.var 0 "g1") :=
    trace_lam (by decide) hrunFn hnamesFn (trace_var (by decide) rfl _ none) none
  have hbody : p.trace ["g2", "a"] 197 [("x", ["a"]), ("x", ["a"])] body =
      .app (.var 0 "g2") (.var 1 "a") := by
    have hforce : (Term.var none 0).force (.shift 1) = .ok (.var none 1) := by cbv
    have hindex : p.trace ["g2", "a"] 196 [("x", ["a"]), ("x", ["a"])] (.var none 1) =
        .var 1 "a" := trace_var (by decide) rfl _ none
    exact trace_app (by decide) (trace_var (by decide) rfl _ none)
      ((trace_pending (by decide) hforce _ none).trans hindex) none
  have harg : p.trace ["a"] 199 [("x", ["a"])] (.lam none "x" body) =
      .lam [("x", ["a"])] [⟨"g2", true⟩] (.app (.var 0 "g2") (.var 1 "a")) := by
    refine trace_lam (by decide) hrunArg hnamesArg ?_ none
    exact hbody
  have htrace : p.trace ["a"] 200 [] e =
      .app (.lam [("x", ["a"])] [⟨"g1", true⟩] (.var 0 "g1"))
        (.lam [("x", ["a"])] [⟨"g2", true⟩] (.app (.var 0 "g2") (.var 1 "a"))) :=
    trace_app (by decide) hfn harg none
  have hcontext : ["a"].Nodup := by decide
  have hplaceholder : p.style.placeholder ∉ ["a"] := by decide
  obtain ⟨hprinted, hvisits⟩ :=
    format_names_apart honest_numbering hcontext hplaceholder e none (.blank 200)
  have htraced : p.trace ["a"] p.style.maxGroups (Desk.blank 200).requests.toList e = _ := htrace
  rw [htraced] at hprinted hvisits
  have hv : v ∈ (p.trace ["a"] p.style.maxGroups [] e).visits ["a"] := by
    rw [show p.style.maxGroups = 200 from rfl, htrace]
    decide
  refine ⟨honest_numbering, hcontext, hplaceholder, ?_, hv, hvisits v ?_⟩
  · rw [hprinted, Trace.printed_of_ok rfl]
    rfl
  · decide

end Printer

end Nameless
