import Nameless.Proofs.Occurrence

/-!
# Searching from left to right

The search for a free index keeps a list of what is still to be looked at. What it answers can be
said without that list: a term is searched from left to right, and the first hit or fault ends the
search. Any term will do here, with negative indices, substitutions that cannot be carried out, and
nodes of no known shape.

* **What is found in a term** (`Term.findings`) is listed from left to right, whether or not the
  search gets that far. The first finding that is no miss is the verdict (`Term.verdict`).
* **The agenda is what is still to be found** (`Term.search_eq_verdict`): working it off comes to
  the verdict on the findings of its entries, one entry after the other.
* **The recursive search comes to the same verdict** (`Term.seek_eq_verdict`), so the two searches
  always end alike (`Term.occurs_left_to_right`).
-/

namespace Nameless.Term

/-- Searches a term for an index by recursion: the body of an abstraction for the next index, the
function of an application and, only if it is not there, the argument. -/
def seek (target : Int) (e : Term) : Except Failure Bool :=
  match _h : e.expose with
  | .error x => .error x
  | .ok (var _ index) => .ok (decide (index = target))
  | .ok (lam _ _ body) => body.seek (target + 1)
  | .ok (app _ fn arg) => do
    if ← fn.seek target then return true else arg.seek target
  | .ok r => .error (.raise (.uninspectable r))
termination_by e.weight
decreasing_by
  · have := weight_expose_le _h
    have := weight_body_lt (by assumption) (by assumption) body
    omega
  · have := weight_expose_le _h
    have := weight_fn_lt (by assumption) fn arg
    omega
  · have := weight_expose_le _h
    have := weight_arg_lt (by assumption) fn arg
    omega

/-- What there is to be found in a term, from left to right: a hit or a miss at each variable, and a
fault at each node that cannot be exposed or is of no known shape. -/
def findings (target : Int) (e : Term) : List (Except Failure Bool) :=
  match _h : e.expose with
  | .error x => [.error x]
  | .ok (var _ index) => [.ok (decide (index = target))]
  | .ok (lam _ _ body) => body.findings (target + 1)
  | .ok (app _ fn arg) => fn.findings target ++ arg.findings target
  | .ok r => [.error (.raise (.uninspectable r))]
termination_by e.weight
decreasing_by
  · have := weight_expose_le _h
    have := weight_body_lt (by assumption) (by assumption) body
    omega
  · have := weight_expose_le _h
    have := weight_fn_lt (by assumption) fn arg
    omega
  · have := weight_expose_le _h
    have := weight_arg_lt (by assumption) fn arg
    omega

/-- What there is to be found is seen from what is exposed. -/
theorem findings_eq (target : Int) (e : Term) : e.findings target = match e.expose with
    | .error x => [.error x]
    | .ok (var _ index) => [.ok (decide (index = target))]
    | .ok (lam _ _ body) => body.findings (target + 1)
    | .ok (app _ fn arg) => fn.findings target ++ arg.findings target
    | .ok r => [.error (.raise (.uninspectable r))] := by
  rw [findings]
  cases e.expose with
  | error x => rfl
  | ok r =>
    cases r with
    | _ => rfl

/-- At a variable it is found out whether it has the target as its index. -/
@[simp] theorem findings_var (target : Int) (loc : Option Span) (index : Int) :
    (var loc index).findings target = [.ok (decide (index = target))] := by
  rw [findings_eq]
  rfl

/-- Below a binder the target is one more. -/
@[simp] theorem findings_lam (target : Int) (loc : Option Span) (hint : String) (body : Term) :
    (lam loc hint body).findings target = body.findings (target + 1) := by
  rw [findings_eq]
  rfl

/-- What is found in the function comes before what is found in the argument. -/
@[simp] theorem findings_app (target : Int) (loc : Option Span) (fn arg : Term) :
    (app loc fn arg).findings target = fn.findings target ++ arg.findings target := by
  rw [findings_eq]
  rfl

/-! ## Verdicts -/

/-- The first finding that is no miss. If there is none, the index is not there. -/
def verdict : List (Except Failure Bool) → Except Failure Bool
  | [] => .ok false
  | .ok false :: rest => verdict rest
  | finding :: _ => finding

/-- Where nothing is left to be found, the target is not there. -/
@[simp] theorem verdict_nil : verdict [] = .ok false := rfl

/-- After a miss, the rest decides. -/
@[simp] theorem verdict_miss (rest : List (Except Failure Bool)) :
    verdict (.ok false :: rest) = verdict rest := rfl

/-- A hit decides, whatever comes later. -/
@[simp] theorem verdict_hit (rest : List (Except Failure Bool)) :
    verdict (.ok true :: rest) = .ok true := rfl

/-- A fault decides, whatever comes later. -/
@[simp] theorem verdict_fault (x : Failure) (rest : List (Except Failure Bool)) :
    verdict (.error x :: rest) = .error x := rfl

/-- A finding that is no miss decides. -/
theorem verdict_cons {finding : Except Failure Bool} (h : finding ≠ .ok false)
    (after : List (Except Failure Bool)) : verdict (finding :: after) = finding := by
  rw [verdict]
  exact h

/-- A finding alone is the verdict. -/
theorem verdict_singleton (finding : Except Failure Bool) : verdict [finding] = finding := by
  by_cases h : finding = .ok false
  · rw [h, verdict_miss, verdict_nil]
  · exact verdict_cons h []

/-- What comes later counts only if all that comes first is missed. -/
theorem verdict_append (first later : List (Except Failure Bool)) :
    verdict (first ++ later) = (do if ← verdict first then return true else verdict later) := by
  fun_induction verdict first with
  | case1 => rfl
  | case2 rest ih => exact ih
  | case3 finding rest hmiss =>
    cases finding with
    | error x => rfl
    | ok hit =>
      cases hit with
      | false => exact absurd rfl hmiss
      | true => rfl

/-- Misses do not count. -/
theorem verdict_of_misses {before : List (Except Failure Bool)} (h : ∀ f ∈ before, f = .ok false)
    (after : List (Except Failure Bool)) : verdict (before ++ after) = verdict after := by
  induction before with
  | nil => rfl
  | cons f before ih =>
    rw [h f List.mem_cons_self, List.cons_append, verdict_miss]
    exact ih fun f hf => h f (List.mem_cons_of_mem _ hf)

/-! ## The two searches -/

/-- **Working an agenda off comes to the verdict on its entries**, one after the other. -/
theorem search_eq_verdict (agenda : Agenda) :
    search agenda = verdict (agenda.flatMap fun entry => entry.2.findings entry.1) := by
  fun_induction search agenda with
  | case1 => rfl
  | case2 target node rest x hx =>
    rw [List.flatMap_cons, findings_eq, hx]
    rfl
  | case3 node rest loc target hexp =>
    rw [List.flatMap_cons, findings_eq, hexp]
    simp
  | case4 target node rest loc index hexp hne ih =>
    rw [List.flatMap_cons, findings_eq, hexp, ih]
    simp [hne]
  | case5 target node rest loc hint body hexp ih =>
    rw [List.flatMap_cons, findings_eq, hexp, ih, List.flatMap_cons]
  | case6 target node rest loc fn arg hexp ih =>
    rw [List.flatMap_cons, findings_eq, hexp, ih, List.flatMap_cons, List.flatMap_cons,
      List.append_assoc]
  | case7 target node rest r hvar hlam happ hexp =>
    obtain ⟨loc, rfl⟩ := exists_unknown_of_expose hexp hvar hlam happ
    rw [List.flatMap_cons, findings_eq, hexp]
    rfl

/-- **The recursive search comes to the verdict on what there is to be found.** -/
theorem seek_eq_verdict (target : Int) (e : Term) :
    e.seek target = verdict (e.findings target) := by
  fun_induction seek target e with
  | case1 target e x hx =>
    rw [findings_eq, hx]
    exact (verdict_singleton _).symm
  | case2 target e loc index hexp =>
    rw [findings_eq, hexp]
    exact (verdict_singleton _).symm
  | case3 target e loc hint body hexp ih => rw [findings_eq, hexp, ih]
  | case4 target e loc fn arg hexp ihfn iharg =>
    rw [findings_eq, hexp, ihfn]
    simp only [verdict_append, iharg]
  | case5 target e r hvar hlam happ hexp =>
    obtain ⟨loc, rfl⟩ := exists_unknown_of_expose hexp hvar hlam happ
    rw [findings_eq, hexp]
    exact (verdict_singleton _).symm

/-- **The search for a free index goes from left to right**, whatever the index and the term. It
ends as the recursive search does, with the same answer or the same fault. And it ends with the
first thing that there is to be found and is no miss: a hit hides all faults to its right, and a
fault hides all hits to its right. If all is missed, the index is not there. -/
theorem occurs_left_to_right (index : Int) (e : Term) :
    e.occurs index = e.seek index ∧
      (∀ before finding after, e.findings index = before ++ finding :: after →
        (∀ f ∈ before, f = .ok false) → finding ≠ .ok false → e.occurs index = finding) ∧
      ((∀ f ∈ e.findings index, f = .ok false) → e.occurs index = .ok false) := by
  have hoccurs : e.occurs index = verdict (e.findings index) := by
    rw [occurs, search_eq_verdict, List.flatMap_singleton]
  refine ⟨hoccurs.trans (seek_eq_verdict index e).symm, ?_, ?_⟩
  · intro before finding after hfindings hmisses hfinding
    rw [hoccurs, hfindings, verdict_of_misses hmisses, verdict_cons hfinding]
  · intro hmisses
    rw [hoccurs, ← List.append_nil (e.findings index), verdict_of_misses hmisses, verdict_nil]

/-- A variable that cannot be shifted down stands beside the variable that is looked for. To its
right it is not noticed, and to its left it ends the search. -/
theorem occurs_left_to_right_beside_fault :
    let fault := pending none (.shift (-1)) (var none 0)
    let hitFirst := lam none "x" (app none (var none 1) fault)
    let faultFirst := lam none "x" (app none fault (var none 1))
    hitFirst.findings 0 = [.ok true, .error (.raise (.negative 0 (-1) none))] ∧
      hitFirst.occurs 0 = .ok true ∧
      faultFirst.findings 0 = [.error (.raise (.negative 0 (-1) none)), .ok true] ∧
      faultFirst.occurs 0 = .error (.raise (.negative 0 (-1) none)) := by
  intro fault hitFirst faultFirst
  have hfault : fault.findings 1 = [.error (.raise (.negative 0 (-1) none))] := by
    have hexp : fault.expose = .error (.raise (.negative 0 (-1) none)) := by
      show (var none 0).force (.shift (-1)) = _
      rw [force_var]
      rfl
    rw [findings_eq, hexp]
  have hhitFirst : hitFirst.findings 0 = [.ok true, .error (.raise (.negative 0 (-1) none))] := by
    simp [hitFirst, hfault]
  have hfaultFirst : faultFirst.findings 0 =
      [.error (.raise (.negative 0 (-1) none)), .ok true] := by
    simp [faultFirst, hfault]
  obtain ⟨-, hfirst, -⟩ := occurs_left_to_right 0 hitFirst
  obtain ⟨-, hfirst', -⟩ := occurs_left_to_right 0 faultFirst
  exact ⟨hhitFirst, hfirst [] _ _ hhitFirst (fun f hf => nomatch hf) (by simp), hfaultFirst,
    hfirst' [] _ _ hfaultFirst (fun f hf => nomatch hf) (by simp)⟩

end Nameless.Term
