import Nameless.Proofs.CarryingOut
import Nameless.Proofs.FreeVariables
import Nameless.Proofs.Naming

/-!
# Which variable has no name

Below `d` abstractions, a context of `n` names covers the indices below `n + d`. The printer makes
its contexts longer by a whole binder list at a time, and meets indices that are yet to be shifted.
Nevertheless it fails on a regular term exactly if a variable is not covered, and it fails at the
first one, in the order in which the variables stand in the term with everything carried out.

* **The variables of a term** are the same below a run of abstractions as in the whole
  (`Term.leaves_of_run`), and one that is not covered refers to a free index beyond the context
  (`Term.exists_occurs_iff`).
* **Naming a binder list succeeds** if there are fresh names (`Printer.nameBinders_supplied`), so
  nothing else can fail on a regular term.
* **A run that leaves nothing out ends at the first variable that is not covered**
  (`Printer.trace_failure`, `Printer.format_nameless_iff`).
-/

namespace Nameless

namespace Leaf

/-- A context of `size` names, with a name more for each abstraction above the variable, has one for
its index. -/
def Covered (size : Nat) (v : Leaf) : Prop := v.index < size + v.depth

instance (size : Nat) (v : Leaf) : Decidable (v.Covered size) :=
  inferInstanceAs (Decidable (v.index < size + v.depth))

/-- The cause for which the variable is not printed if it is not covered. -/
def nameless (size : Nat) (v : Leaf) : Fault := .nameless v.index (size + v.depth) v.span

/-- If the index of a variable that is not covered can be written, so can the size of the context
that does not cover it. -/
theorem raise_nameless {size : Nat} {v : Leaf} (hv : ¬ v.Covered size)
    (hdigits : Decimal.Writable v.index) :
    Failure.raise (v.nameless size) = .fault (v.nameless size) := by
  have hsize : Decimal.Writable (size + v.depth) := by
    unfold Covered at hv
    exact Nat.lt_of_le_of_lt (by omega) hdigits
  exact if_pos (by simp [nameless, Fault.writable, hdigits, hsize])

/-- The first of a list of variables that is not covered. -/
def firstUncovered (size : Nat) (vs : List Leaf) : Option Leaf :=
  vs.find? fun v => ¬ v.Covered size

/-- A variable alone is the first that is not covered, or there is none. -/
theorem firstUncovered_singleton (size : Nat) (v : Leaf) :
    firstUncovered size [v] = if v.Covered size then none else some v := by
  rw [firstUncovered, List.find?_singleton]
  by_cases hv : v.Covered size <;> simp [hv]

/-- A later variable is the first only if all earlier ones are covered. -/
theorem firstUncovered_append (size : Nat) (vs ws : List Leaf) :
    firstUncovered size (vs ++ ws) = (firstUncovered size vs).or (firstUncovered size ws) :=
  List.find?_append

/-- Before the first variable that is not covered, all are. -/
theorem firstUncovered_eq_some {size : Nat} {vs : List Leaf} {v : Leaf}
    (h : firstUncovered size vs = some v) :
    ¬ v.Covered size ∧
      ∃ before after, vs = before ++ v :: after ∧ ∀ u ∈ before, u.Covered size := by
  obtain ⟨hv, before, after, hvs, hbefore⟩ := List.find?_eq_some_iff_append.1 h
  exact ⟨by simpa using hv, before, after, hvs, by simpa using hbefore⟩

/-- There is no first variable that is not covered if all are. -/
theorem firstUncovered_eq_none {size : Nat} {vs : List Leaf} :
    firstUncovered size vs = none ↔ ∀ v ∈ vs, v.Covered size := by
  simp [firstUncovered]

end Leaf

namespace Term

/-! ## The variables of a term -/

/-- **Below a run of abstractions, the variables are those of the whole.** -/
theorem leaves_of_run {e f inner : Term} {hints : List String} (hrun : e.run = .ok (hints, inner))
    (hf : e.forceAll = .ok f) :
    ∃ inner', inner.forceAll = .ok inner' ∧
      ∀ depth, f.leaves depth = inner'.leaves (depth + hints.length) := by
  fun_induction Term.run e generalizing hints f with
  | case1 e x hexp => cases hrun
  | case2 e loc hint body hexp ih =>
    obtain ⟨found, hbelow, hrun⟩ := Failure.bind_eq_ok.1 hrun
    cases hrun
    rw [forceAll_of_expose hexp, forceAll_lam_eq_ok] at hf
    obtain ⟨body', hbody, rfl⟩ := hf
    obtain ⟨inner', hinner, hleaves⟩ := ih hbelow hbody
    refine ⟨inner', hinner, ?_⟩
    intro depth
    rw [leaves, hleaves, List.length_cons, Nat.add_right_comm, Nat.add_assoc]
  | case3 e inner' hlam hexp =>
    cases hrun
    rw [forceAll_of_expose hexp] at hf
    exact ⟨f, hf, fun depth => rfl⟩

/-- A variable is not covered by a context exactly if an index beyond the context is free. -/
theorem exists_occurs_iff {e f : Term} (he : e.Regular) (hf : e.forceAll = .ok f) (size : Nat) :
    (∃ k : Int, size ≤ k ∧ e.occurs k = .ok true) ↔ ∃ v ∈ f.leaves 0, ¬ v.Covered size := by
  obtain ⟨f', hf', hsame⟩ := forceAll_regular he
  rw [hf'] at hf
  cases hf
  unfold Leaf.Covered
  constructor
  · rintro ⟨k, hk, hocc⟩
    obtain ⟨n, rfl⟩ := Int.eq_ofNat_of_zero_le (a := k) (by omega)
    rw [occurs_regular he] at hocc
    obtain ⟨v, hv, hindex⟩ := (free_iff_leaves hsame n 0).1 (Except.ok.inj hocc)
    exact ⟨v, hv, by omega⟩
  · rintro ⟨v, hv, hindex⟩
    obtain ⟨n, hn⟩ := Int.eq_ofNat_of_zero_le (a := v.index - v.depth) (by omega)
    refine ⟨n, by omega, ?_⟩
    have hfree := (free_iff_leaves hsame n 0).2 ⟨v, hv, by omega⟩
    exact (occurs_regular he n).trans (congrArg Except.ok hfree)

end Term

namespace Printer

/-! ## Printing -/

/-- A context has no name for an index that lies beyond it. -/
theorem nameAt?_eq_none_iff {context : List String} {index : Int} (h : 0 ≤ index) :
    nameAt? context index = none ↔ (context.length : Int) ≤ index := by
  rw [nameAt?, if_neg (by omega), List.getElem?_eq_none_iff]
  omega

/-- There is a fresh name for every request, whatever was asked for before. -/
def Supplied (p : Printer) : Prop :=
  ∀ asked hint taken, ∃ name, p.freshen asked hint taken = .ok name

/-- **Naming a binder list succeeds** over a regular body. -/
theorem nameBinders_supplied {p : Printer} (hp : p.Supplied) (context : List String) {body : Term}
    (hbody : body.Regular) (asked : List Name.Query) (chosen : List Binder) (hints : List String) :
    ∃ bs, (p.nameBinders context body asked chosen hints).outcome = .ok bs := by
  induction hints generalizing asked chosen with
  | nil => exact ⟨chosen, rfl⟩
  | cons hint hints ih =>
    let used := body.meaning.free chosen.length
    let query : Name.Query := (hint, context ++ chosen.map Binder.name)
    have hused : body.occurs chosen.length = .ok used := Term.occurs_regular hbody _
    obtain ⟨name, hname⟩ : ∃ name, p.nameFor asked used query = .ok name := by
      unfold nameFor
      split
      · exact hp asked hint _
      · exact ⟨_, rfl⟩
    obtain ⟨bs, hbs⟩ := ih (asked ++ queryFor used query) (chosen ++ [⟨name, used⟩])
    refine ⟨bs, ?_⟩
    rw [nameBinders_cons hused hname]
    exact hbs

/-- **A run that leaves nothing out ends at the first variable that is not covered.** The context
has grown by the abstractions that stand above the term. -/
theorem trace_failure {p : Printer} (hp : p.Supplied) {size depth groups : Nat}
    {context : List String} {room : Int} {asked : List Name.Query} {e f : Term} (he : e.Regular)
    (hf : e.forceAll = .ok f) (hcontext : context.length = size + depth)
    (hskips : (p.trace context room asked e).skips groups = []) :
    (p.trace context room asked e).failure =
      (Leaf.firstUncovered size (f.leaves depth)).map fun v => .raise (v.nameless size) := by
  fun_induction p.trace context room asked e generalizing depth groups f with
  | case1 context room asked e hle => cases hskips
  | case2 context room asked hgt loc index name hname =>
    rw [Term.forceAll_var] at hf
    cases hf
    have hcovered : Leaf.Covered size ⟨depth, index, loc⟩ := by
      have hlt : ¬ (context.length : Int) ≤ index := by
        rw [← nameAt?_eq_none_iff he, hname]
        simp
      show index < size + depth
      omega
    rw [Term.leaves, Leaf.firstUncovered_singleton, if_pos hcovered]
    rfl
  | case3 context room asked hgt loc index hname =>
    rw [Term.forceAll_var] at hf
    cases hf
    have huncovered : ¬ Leaf.Covered size ⟨depth, index, loc⟩ := by
      have hle := (nameAt?_eq_none_iff he).1 hname
      show ¬ index < size + depth
      omega
    rw [Term.leaves, Leaf.firstUncovered_singleton, if_neg huncovered, Trace.failure, hcontext,
      Int.natCast_add]
    rfl
  | case4 context room asked hgt loc s body x hforce =>
    obtain ⟨r, hr, -⟩ := Term.force_regular he.1 he.2
    rw [hr] at hforce
    cases hforce
  | case5 context room asked hgt loc s body r hforce ih =>
    have hreg := (Term.regular_of_force he.1 he.2 hforce).1
    have hexp : (Term.pending loc s body).expose = .ok r := hforce
    rw [Term.forceAll_of_expose hexp] at hf
    exact ih hreg hf hcontext hskips
  | case6 context room asked hgt loc hint body x hrun =>
    obtain ⟨hints, inner, hrun', -⟩ := Term.run_regular (e := body) he
    rw [hrun'] at hrun
    cases hrun
  | case7 context room asked hgt loc hint body hints inner hrun naming x =>
    rename_i hnames
    have hinner := (Term.regular_of_run (e := body) he hrun).1
    obtain ⟨bs, hbs⟩ := nameBinders_supplied hp context hinner asked [] (hint :: hints).reverse
    rw [hbs] at hnames
    cases hnames
  | case8 context room asked hgt loc hint body hints inner hrun naming bs hnames =>
    rename_i ih
    have hinner := (Term.regular_of_run (e := body) he hrun).1
    obtain ⟨below, hbelow, hleaves⟩ := Term.leaves_of_run (Term.run_lam hrun loc hint) hf
    rw [hleaves]
    refine ih hinner hbelow ?_ hskips
    rw [List.length_append, List.length_map, nameBinders_length hnames, hcontext, List.length_nil,
      List.length_reverse]
    omega
  | case9 context room asked hgt loc fn arg first ihf =>
    rename_i iha
    obtain ⟨fn', hfn, arg', harg, rfl⟩ := Term.forceAll_app_eq_ok.1 hf
    obtain ⟨hfnSkips, hargSkips⟩ := List.append_eq_nil_iff.1 hskips
    rw [Trace.failure, Term.leaves, Leaf.firstUncovered_append]
    have hfnFails := ihf he.1 hfn hcontext hfnSkips
    cases hfirst : Leaf.firstUncovered size (fn'.leaves depth) with
    | some v =>
      rw [hfnFails, hfirst]
      rfl
    | none =>
      -- the argument is reached, so nothing is left out of it either
      rw [hfirst] at hfnFails
      rw [Trace.before_of_ok hfnFails] at hargSkips
      rw [hfnFails, iha he.2 harg hcontext hargSkips]
      rfl
  | case10 context room asked hgt loc => exact absurd he id

/-- **A name is missing exactly if a free index lies beyond the context.** Let the printer have a
fresh name for every request, and let the term be regular and have no variable, with everything
carried out, whose index is too long to be written. Then every run that leaves nothing out fails
because of a missing name if some index beyond the context is free in the term, and gives a text
otherwise. If it fails, then at the first variable of the term with everything carried out that is
not covered: the context that is reported has one name more than the given one for each abstraction
above that variable, and the span that is reported is the span of that variable. -/
theorem format_nameless_iff {p : Printer} (hp : p.Supplied) {context : List String} {e : Term}
    (he : e.Regular)
    (hdigits : ∀ f, e.forceAll = .ok f → ∀ v ∈ f.leaves 0, Decimal.Writable v.index)
    {max : Option Int} {desk desk' : Desk} {outcome : Except Failure String}
    (hrun : (p.format context e max).runAt desk = (outcome, desk'))
    (hskips : desk'.skips = desk.skips) :
    ((∃ cause, outcome = .error (.fault cause) ∧ cause.kind = .lookup) ↔
      ∃ k : Int, context.length ≤ k ∧ e.occurs k = .ok true) ∧
    ((¬ ∃ k : Int, context.length ≤ k ∧ e.occurs k = .ok true) → ∃ text, outcome = .ok text) ∧
    ∃ f, e.forceAll = .ok f ∧ ∀ x, outcome = .error x →
      ∃ (before : List Leaf) (v : Leaf) (after : List Leaf), f.leaves 0 = before ++ v :: after ∧
        (∀ u ∈ before, u.index - u.depth < context.length) ∧
        context.length ≤ v.index - v.depth ∧
        x = .fault (.nameless v.index (context.length + v.depth) v.span) := by
  obtain ⟨f, hf, -⟩ := Term.forceAll_regular he
  rw [Term.exists_occurs_iff he hf]
  have hprinted := p.runAt_format_traced context e max desk
  rw [hrun] at hprinted
  have hleft : (p.trace context p.style.maxGroups desk.requests.toList e).skips 0 = [] := by
    rw [← Trace.skips_printed_iff, ← hprinted]
    exact hskips
  have hlength : context.length = context.length + 0 := rfl
  have hends := trace_failure hp he hf hlength hleft
  cases hfirst : Leaf.firstUncovered context.length (f.leaves 0) with
  | none =>
    have hcovered := Leaf.firstUncovered_eq_none.1 hfirst
    rw [hfirst] at hends
    obtain ⟨text, rfl⟩ : ∃ text, outcome = .ok text :=
      ⟨_, (congrArg Prod.fst hprinted).trans (Trace.printed_of_ok hends _ _ _)⟩
    refine ⟨⟨?_, ?_⟩, fun _ => ⟨text, rfl⟩, f, hf, ?_⟩
    · rintro ⟨cause, hcause, -⟩
      cases hcause
    · rintro ⟨v, hv, huncovered⟩
      exact absurd (hcovered v hv) huncovered
    · intro x hx
      cases hx
  | some v =>
    obtain ⟨huncovered, before, after, hvs, hbefore⟩ := Leaf.firstUncovered_eq_some hfirst
    have hv : v ∈ f.leaves 0 := by simp [hvs]
    rw [hfirst, Option.map_some, Leaf.raise_nameless huncovered (hdigits f hf v hv)] at hends
    obtain rfl : outcome = .error (.fault (v.nameless context.length)) :=
      (congrArg Prod.fst hprinted).trans (Trace.printed_of_failure hends _ _ _)
    refine ⟨⟨fun _ => ⟨v, hv, huncovered⟩, fun _ => ⟨_, rfl, rfl⟩⟩, ?_, f, hf, ?_⟩
    · intro hnone
      exact absurd ⟨v, hv, huncovered⟩ hnone
    · rintro x ⟨⟩
      refine ⟨before, v, after, hvs, ?_, ?_, rfl⟩
      · intro u hu
        have := hbefore u hu
        unfold Leaf.Covered at this
        omega
      · unfold Leaf.Covered at huncovered
        omega

/-- In the context `a`, the shift that waits over index `1` in `λ x. 0 1` makes it `2`, the first
index that the two names in scope do not cover. -/
theorem format_nameless_shifted :
    let p : Printer := { freshen := fun asked hint _ => .ok (hint.pushn '+' asked.length) }
    let span : Span := ⟨⟨"", 1, 0, 7⟩, ⟨"", 1, 0, 8⟩⟩
    let e := Term.lam none "x"
      (.app none (.var none 0) (.pending none (.shift 1) (.var (some span) 1)))
    let run := (p.format ["a"] e none).runAt (.blank 200)
    p.Supplied ∧ e.Regular ∧
      (∀ f, e.forceAll = .ok f → ∀ v ∈ f.leaves 0, Decimal.Writable v.index) ∧
      run.2.skips = (Desk.blank 200).skips ∧
      run.1 = .error (.fault (.nameless 2 2 (some span))) := by
  intro p span e run
  let inner := Term.app none (.var none 0) (.pending none (.shift 1) (.var (some span) 1))
  have hsupplied : p.Supplied := fun asked hint _ => ⟨hint.pushn '+' asked.length, rfl⟩
  have he : e.Regular := by decide
  have hforced : e.forceAll =
      .ok (.lam none "x" (.app none (.var none 0) (.var (some span) 2))) := by
    have hpending : (Term.pending none (.shift 1) (.var (some span) 1)).expose =
        .ok (.var (some span) 2) := by
      simp only [span]
      cbv
    refine Term.forceAll_lam_eq_ok.2 ⟨_, Term.forceAll_app_eq_ok.2 ⟨_, ?_, _, ?_, rfl⟩, rfl⟩
    · exact Term.forceAll_var none 0
    · rw [Term.forceAll_of_expose hpending, Term.forceAll_var]
  have hdigits : ∀ f, e.forceAll = .ok f → ∀ v ∈ f.leaves 0, Decimal.Writable v.index := by
    intro f hf v hv
    rw [hforced] at hf
    cases hf
    have hsmall : ∀ v ∈ (Term.lam none "x" (.app none (.var none 0) (.var (some span) 2))).leaves 0,
        v.index.natAbs < 10 := by decide
    exact Decimal.writable_of_natAbs_lt (hsmall v hv)
  have hskips : run.2.skips = (Desk.blank 200).skips := by
    have hbelow : inner.run = .ok ([], inner) := by
      rw [Term.run]
      rfl
    have hnames : p.nameBinders ["a"] inner [] [] ["x"] =
        ⟨[("x", ["a"])], .ok [⟨"x", true⟩]⟩ := by
      have hused : inner.occurs (([] : List Binder).length : Int) = .ok true :=
        Term.occurs_regular (by decide) 0
      have hname : p.nameFor [] true ("x", ["a"]) = .ok "x" := rfl
      exact nameBinders_cons hused hname []
    have hmissing : p.trace ["x", "a"] 197 [("x", ["a"])]
        (.pending none (.shift 1) (.var (some span) 1)) =
        .failed (.raise (.nameless 2 2 (some span))) := by
      have hforce : (Term.var (some span) 1).force (.shift 1) = .ok (.var (some span) 2) := by
        simp only [span]
        cbv
      rw [trace_pending (by decide) hforce, trace, if_neg (by decide)]
      rfl
    have hinner : p.trace ["x", "a"] 198 [("x", ["a"])] inner =
        .app (.var 0 "x") (.failed (.raise (.nameless 2 2 (some span)))) :=
      trace_app (by decide) (trace_var (by decide) rfl _ none) hmissing none
    have htrace : p.trace ["a"] 200 [] e = .lam [("x", ["a"])] [⟨"x", true⟩]
        (.app (.var 0 "x") (.failed (.raise (.nameless 2 2 (some span))))) := by
      refine trace_lam (by decide) hbelow hnames ?_ none
      exact hinner
    have hblank : (Desk.blank 200).requests.toList = [] := rfl
    simp only [run]
    rw [runAt_format_traced, Trace.skips_printed_iff, hblank,
      show p.style.maxGroups = 200 from rfl, htrace]
    rfl
  refine ⟨hsupplied, he, hdigits, hskips, ?_⟩
  obtain ⟨hfails, -, f, hf, hfirst⟩ := format_nameless_iff hsupplied he hdigits
    (show (p.format ["a"] e none).runAt (.blank 200) = (run.1, run.2) from rfl) hskips
  have hoccurs : e.occurs 1 = .ok true := by
    rw [show (1 : Int) = ((1 : Nat) : Int) from rfl, Term.occurs_regular he]
    rfl
  obtain ⟨cause, hcause, -⟩ := hfails.2 ⟨1, by decide, hoccurs⟩
  obtain ⟨before, v, after, hleaves, -, hbeyond, hx⟩ := hfirst _ hcause
  rw [hforced] at hf
  cases hf
  have hv : v ∈ [⟨1, 0, none⟩, ⟨1, 2, some span⟩] := by
    rw [show [⟨1, 0, none⟩, ⟨1, 2, some span⟩] = before ++ v :: after from hleaves]
    simp
  have hv' : v = ⟨1, 2, some span⟩ := by
    rcases List.mem_cons.1 hv with rfl | hv
    · exact absurd hbeyond (by decide)
    · exact List.mem_singleton.1 hv
  rw [hcause, hx, hv']
  rfl

end Printer

end Nameless
