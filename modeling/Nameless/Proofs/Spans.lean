import Nameless.Proofs.CarryingOut
import Nameless.Proofs.SideBySide
import Nameless.Term.Equality

/-!
# Spans are inert

Spans are copied from node to node, dropped, or taken from another node, in a different way by each
operation. None of this ever shows, except in what a failure points at and in its wording: two
arguments that differ in spans only lead to outcomes that differ in spans only.

Failures are compared by what they are about (`Fault.Same`): their family, and the values they
concern, up to spans. There is one exception. The wording of a fault shows terms with their spans,
and gives way to the bound on digits if a number in it is too long. So what is alike are the faults
that were to be raised (`Failure.Alike`), of which one may be too long for words and the other not.

* **Each operation takes arguments that differ in spans only to such outcomes**
  (`Subst.Same.compose`, `Term.Same.defer`, `Term.Same.force`, `Term.Same.occurs`).
* **They are printed side by side** (`Printer.term_same`).
-/

namespace Nameless

/-! ## Outcomes -/

/-- A value that a fault concerns, without its spans. -/
def Fault.Detail.bare : Detail → Detail
  | number n => .number n
  | term e => .term e.bare
  | subst s => .subst s.bare

/-- Two faults of one family that concern the same values, up to spans. -/
structure Fault.Same (cause cause' : Fault) : Prop where
  kind : cause.kind = cause'.kind
  details : cause.details.map (Prod.map id Detail.bare) =
    cause'.details.map (Prod.map id Detail.bare)

namespace Failure

/-- Two failures that are equal, or come from raising faults that are the same up to spans. -/
inductive Alike : Failure → Failure → Prop where
  | refl (x : Failure) : Alike x x
  | raise {cause cause' : Fault} (h : cause.Same cause') : Alike (.raise cause) (.raise cause')

instance : Std.Refl Alike := ⟨.refl⟩

/-- A fault is raised for the cause that it states. -/
theorem raise_eq_fault {cause cause' : Fault} (h : raise cause = .fault cause') :
    cause = cause' := by
  unfold raise at h
  split at h
  · exact Failure.fault.inj h
  · cases h

/-- A cause is raised as a fault, unless its text is too long to be written. -/
theorem raise_eq_or (cause : Fault) :
    raise cause = .fault cause ∨ raise cause = .digits .writing := by
  unfold raise
  split
  · exact .inl rfl
  · exact .inr rfl

/-- What is like a fault is the same fault up to spans, unless its wording is too long. -/
theorem Alike.of_fault {cause : Fault} {y : Failure} (h : Alike (.fault cause) y)
    (hy : y ≠ .digits .writing) : ∃ cause', y = .fault cause' ∧ cause.Same cause' := by
  generalize hx : Failure.fault cause = x at h
  cases h with
  | refl => exact ⟨cause, hx.symm, rfl, rfl⟩
  | @raise cause₀ cause' hsame =>
    rw [raise_eq_fault hx.symm] at hsame
    rcases raise_eq_or cause' with hraise | hraise
    · exact ⟨cause', hraise, hsame⟩
    · exact absurd hraise hy

/-- Both outcomes are values that are related, or failures that are alike. -/
inductive Match {α β : Type} (related : α → β → Prop) :
    Except Failure α → Except Failure β → Prop where
  | ok {a : α} {b : β} (h : related a b) : Match related (.ok a) (.ok b)
  | error {x y : Failure} (h : Alike x y) : Match related (.error x) (.error y)

namespace Match

variable {α β γ δ : Type} {related : α → β → Prop} {related' : γ → δ → Prop}

/-- If one side gives a result, the other side gives a related one. -/
theorem of_ok {x : Except Failure α} {y : Except Failure β} (h : Match related x y) {a : α}
    (hx : x = .ok a) : ∃ b, y = .ok b ∧ related a b := by
  rw [hx] at h
  cases h with
  | ok hab => exact ⟨_, rfl, hab⟩

/-- If one side fails, the other side fails alike. -/
theorem of_error {x : Except Failure α} {y : Except Failure β} (h : Match related x y)
    {failure : Failure} (hx : x = .error failure) :
    ∃ failure', y = .error failure' ∧ Alike failure failure' := by
  rw [hx] at h
  cases h with
  | error halike => exact ⟨_, rfl, halike⟩

/-- A failure for the same reason, up to spans. -/
theorem raise {cause cause' : Fault} (hkind : cause.kind = cause'.kind)
    (hdetails : cause.details.map (Prod.map id Fault.Detail.bare) =
      cause'.details.map (Prod.map id Fault.Detail.bare)) :
    Match related (.error (.raise cause)) (.error (.raise cause')) :=
  .error (.raise ⟨hkind, hdetails⟩)

/-- One step after the other. -/
theorem bind {x : Except Failure α} {y : Except Failure β} (h : Match related x y)
    {f : α → Except Failure γ} {g : β → Except Failure δ}
    (hnext : ∀ a b, related a b → Match related' (f a) (g b)) :
    Match related' (x >>= f) (y >>= g) := by
  cases h with
  | ok hab => exact hnext _ _ hab
  | error hxy => exact .error hxy

end Match

end Failure

open Failure (Match Alike)

/-! ## Shapes -/

namespace Term.Same

variable {e' body body' fn fn' arg arg' : Term} {s s' : Subst} {hint : String} {k : Int}
  {loc loc' : Option Span}

/-- What is the same as a variable is that variable. -/
theorem of_var (h : (var loc k).Same e') : ∃ loc', e' = var loc' k := by
  cases e' with
  | var loc' k' => exact ⟨loc', by rw [(Term.var.inj h).2]⟩
  | _ => cases h

/-- What is the same as an abstraction is one over the same body, with the same hint. -/
theorem of_lam (h : (lam loc hint body).Same e') :
    ∃ loc' body', e' = lam loc' hint body' ∧ body.Same body' := by
  cases e' with
  | lam loc' hint' body' =>
    obtain ⟨-, rfl, hbody⟩ := Term.lam.inj h
    exact ⟨loc', body', rfl, hbody⟩
  | _ => cases h

/-- What is the same as an application is one of the same parts. -/
theorem of_app (h : (app loc fn arg).Same e') :
    ∃ loc' fn' arg', e' = app loc' fn' arg' ∧ fn.Same fn' ∧ arg.Same arg' := by
  cases e' with
  | app loc' fn' arg' => exact ⟨loc', fn', arg', rfl, (Term.app.inj h).2⟩
  | _ => cases h

/-- What is the same as a pending substitution is one of the same parts. -/
theorem of_pending (h : (pending loc s body).Same e') :
    ∃ loc' s' body', e' = pending loc' s' body' ∧ s.Same s' ∧ body.Same body' := by
  cases e' with
  | pending loc' s' body' => exact ⟨loc', s', body', rfl, (Term.pending.inj h).2⟩
  | _ => cases h

/-- What is the same as a node of no known shape is one. -/
theorem of_unknown (h : (unknown loc).Same e') : ∃ loc', e' = unknown loc' := by
  cases e' with
  | unknown loc' => exact ⟨loc', rfl⟩
  | _ => cases h

/-- Abstractions over the same body are the same. -/
theorem lam (hbody : body.Same body') : (lam loc hint body).Same (.lam loc' hint body') :=
  congrArg (Term.lam none hint) hbody

/-- Applications of the same parts are the same. -/
theorem app (hfn : fn.Same fn') (harg : arg.Same arg') :
    (app loc fn arg).Same (.app loc' fn' arg') := by
  unfold Term.Same at hfn harg ⊢
  rw [bare, bare, hfn, harg]

/-- Pending substitutions of the same parts are the same. -/
theorem pending (hs : s.Same s') (hbody : body.Same body') :
    (pending loc s body).Same (.pending loc' s' body') := by
  unfold Term.Same at hbody ⊢
  unfold Subst.Same at hs
  rw [bare, bare, hs, hbody]

/-- Of two terms that are the same, both are pending or none is. -/
theorem isPending {e e' : Term} (h : e.Same e') : e.isPending = e'.isPending := by
  have hbare (e : Term) : e.bare.isPending = e.isPending := by
    cases e with
    | _ => rfl
  rw [← hbare e, ← hbare e', show e.bare = e'.bare from h]

end Term.Same

namespace Subst.Same

variable {s s' rest rest' : Subst} {head head' : Term} {n : Int}

/-- What is the same as a shift is that shift. -/
theorem of_shift (h : (shift n).Same s') : s' = shift n := by
  cases s' with
  | shift n' => exact h.symm
  | _ => cases h

/-- What is the same as a dot is one of the same parts. -/
theorem of_dot (h : (dot head rest).Same s') :
    ∃ head' rest', s' = dot head' rest' ∧ head.Same head' ∧ rest.Same rest' := by
  cases s' with
  | dot head' rest' => exact ⟨head', rest', rfl, Subst.dot.inj h⟩
  | _ => cases h

/-- What is the same as a substitution of no known shape is one. -/
theorem of_unknown (h : unknown.Same s') : s' = unknown := by
  cases s' with
  | unknown => rfl
  | _ => cases h

/-- Dots of the same parts are the same. -/
theorem dot (hhead : head.Same head') (hrest : rest.Same rest') :
    (dot head rest).Same (.dot head' rest') := by
  unfold Term.Same at hhead
  unfold Subst.Same at hrest ⊢
  rw [bare, bare, hhead, hrest]

/-- Of two substitutions that are the same, both are taken for the identity or none is. -/
theorem isIdentity (h : s.Same s') : s.isIdentity = s'.isIdentity := by
  have hbare (s : Subst) : s.bare.isIdentity = s.isIdentity := by
    cases s with
    | _ => rfl
  rw [← hbare s, ← hbare s', show s.bare = s'.bare from h]

/-! ## Operations -/

/-- After a shift, substitutions that are the same stay so, or fail alike. -/
theorem afterShift (h : s.Same s') (n : Int) :
    Match Subst.Same (s.afterShift n) (s'.afterShift n) := by
  fun_induction Subst.afterShift s n generalizing s' with
  | case1 m n =>
    rw [h.of_shift]
    exact .ok rfl
  | case2 head rest =>
    obtain ⟨head', rest', rfl, hhead, hrest⟩ := h.of_dot
    rw [Subst.afterShift, if_pos rfl]
    exact .ok (dot hhead hrest)
  | case3 head rest n hne hneg =>
    obtain ⟨head', rest', rfl, hhead, hrest⟩ := h.of_dot
    rw [Subst.afterShift, if_neg hne, if_pos hneg]
    have hbare : (Subst.dot head rest).bare = (Subst.dot head' rest').bare := h
    exact .raise rfl (by simp [Fault.details, Fault.Detail.bare, hbare])
  | case4 head rest n hne hneg ih =>
    obtain ⟨head', rest', rfl, hhead, hrest⟩ := h.of_dot
    rw [Subst.afterShift, if_neg hne, if_neg hneg]
    exact ih hrest
  | case5 =>
    rw [h.of_unknown]
    exact .ok rfl
  | case6 n hne =>
    rw [h.of_unknown, Subst.afterShift, if_neg hne]
    exact .error (.refl _)

end Subst.Same

/-- Over a term that is not pending, deferring needs to look at the substitution only. -/
theorem Term.Same.defer_of_not_pending {s s' : Subst} (hs : s.Same s') {e e' : Term}
    (he : e.Same e') (h : e.isPending = false) : Match Term.Same (e.defer s) (e'.defer s') := by
  have hdefer {s : Subst} {e : Term} (h : e.isPending = false) :
      e.defer s = .ok (if s.isIdentity then e else .pending e.span s e) := by
    cases e with
    | pending loc t body => cases h
    | _ => rfl
  rw [hdefer h, hdefer (he.isPending ▸ h), ← hs.isIdentity]
  refine .ok ?_
  split
  · exact he
  · exact .pending hs he

mutual

/-- **Composition.** -/
theorem Subst.Same.compose {s s' : Subst} (hs : s.Same s') : (t : Subst) → {t' : Subst} →
    t.Same t' → Match Subst.Same (s.compose t) (s'.compose t')
  | .shift n, t', ht => by
    rw [ht.of_shift]
    exact hs.afterShift n
  | .dot head rest, t', ht => by
    obtain ⟨head', rest', rfl, hhead, hrest⟩ := ht.of_dot
    refine (Term.Same.defer hs head hhead).bind ?_
    intro entry entry' hentry
    refine (Subst.Same.compose hs rest hrest).bind ?_
    intro others others' hothers
    exact .ok (.dot hentry hothers)
  | .unknown, t', ht => by
    rw [ht.of_unknown]
    exact .error (.refl _)

/-- **Deferring.** -/
theorem Term.Same.defer {s s' : Subst} (hs : s.Same s') : (e : Term) → {e' : Term} → e.Same e' →
    Match Term.Same (e.defer s) (e'.defer s')
  | .pending loc t body, e', he => by
    obtain ⟨loc', t', body', rfl, ht, hbody⟩ := he.of_pending
    rw [Term.defer, Term.defer, ← hs.isIdentity]
    split
    · exact .ok he
    · refine (Subst.Same.compose hs t ht).bind ?_
      intro merged merged' hmerged
      exact .ok (.pending hmerged hbody)
  | .var _ _, e', he => Term.Same.defer_of_not_pending hs he rfl
  | .lam _ _ _, e', he => Term.Same.defer_of_not_pending hs he rfl
  | .app _ _ _, e', he => Term.Same.defer_of_not_pending hs he rfl
  | .unknown _, e', he => Term.Same.defer_of_not_pending hs he rfl

end

namespace Subst.Same

/-- **Looking an index up.** The span that is handed to the variable does not count. -/
theorem lookup {s s' : Subst} (hs : s.Same s') (loc loc' : Option Span) (i k : Int) :
    Match Term.Same (s.lookup loc i k) (s'.lookup loc' i k) := by
  fun_induction Subst.lookup loc i s k generalizing s' with
  | case1 n k hneg =>
    rw [hs.of_shift, Subst.lookup, if_pos hneg]
    exact .raise rfl rfl
  | case2 n k hneg =>
    rw [hs.of_shift, Subst.lookup, if_neg hneg]
    exact .ok rfl
  | case3 head rest =>
    obtain ⟨head', rest', rfl, hhead, -⟩ := hs.of_dot
    rw [Subst.lookup, if_pos rfl]
    exact .ok hhead
  | case4 head rest k hk ih =>
    obtain ⟨head', rest', rfl, -, hrest⟩ := hs.of_dot
    rw [Subst.lookup, if_neg hk]
    exact ih hrest
  | case5 k =>
    rw [hs.of_unknown]
    exact .raise rfl rfl

/-- **Lifting.** -/
theorem lifted {s s' : Subst} (hs : s.Same s') : Match Subst.Same s.lifted s'.lifted := by
  have hone : (Subst.shift 1).Same (.shift 1) := rfl
  refine (hone.compose s hs).bind ?_
  intro rest rest' hrest
  exact .ok (.dot rfl hrest)

end Subst.Same

namespace Term

namespace Same

/-- **Forcing.** -/
theorem force {s s' : Subst} (hs : s.Same s') {e e' : Term} (he : e.Same e') :
    Match Same (e.force s) (e'.force s') := by
  fun_induction Term.force s e generalizing s' e' with
  | case1 s loc t body x hcompose =>
    obtain ⟨loc', t', body', rfl, ht, hbody⟩ := he.of_pending
    obtain ⟨x', hx', halike⟩ := (hs.compose t ht).of_error hcompose
    rw [force_pending, hx']
    exact .error halike
  | case2 s loc t body merged hcompose ih =>
    obtain ⟨loc', t', body', rfl, ht, hbody⟩ := he.of_pending
    obtain ⟨merged', hmerged', hsame⟩ := (hs.compose t ht).of_ok hcompose
    rw [force_pending, hmerged']
    exact ih hsame hbody
  | case3 s loc k x hlookup =>
    obtain ⟨loc', rfl⟩ := he.of_var
    obtain ⟨x', hx', halike⟩ := (hs.lookup loc loc' k k).of_error hlookup
    rw [force_var, hx']
    exact .error halike
  | case4 s loc k r hlookup hpending ih =>
    obtain ⟨loc', rfl⟩ := he.of_var
    obtain ⟨r', hr', hsame⟩ := (hs.lookup loc loc' k k).of_ok hlookup
    rw [force_var, hr']
    show Match Same _ (if r'.isPending then r'.force .identity else .ok r')
    -- both replacements are pending or neither is, so forcing goes on with both
    rw [if_pos (hsame.isPending ▸ hpending)]
    exact ih rfl hsame
  | case5 s loc k r hlookup hpending =>
    obtain ⟨loc', rfl⟩ := he.of_var
    obtain ⟨r', hr', hsame⟩ := (hs.lookup loc loc' k k).of_ok hlookup
    rw [force_var, hr']
    show Match Same _ (if r'.isPending then r'.force .identity else .ok r')
    rw [if_neg (hsame.isPending ▸ hpending)]
    exact .ok hsame
  | case6 s loc hint body hid =>
    obtain ⟨loc', body', rfl, hbody⟩ := he.of_lam
    rw [Term.force, if_pos (hs.isIdentity ▸ hid)]
    exact .ok he
  | case7 s loc hint body hid =>
    obtain ⟨loc', body', rfl, hbody⟩ := he.of_lam
    rw [Term.force, if_neg (hs.isIdentity ▸ hid)]
    refine hs.lifted.bind ?_
    intro below below' hbelow
    refine (defer hbelow body hbody).bind ?_
    intro inner inner' hinner
    exact .ok (.lam hinner)
  | case8 s loc fn arg hid =>
    obtain ⟨loc', fn', arg', rfl, hfn, harg⟩ := he.of_app
    rw [Term.force, if_pos (hs.isIdentity ▸ hid)]
    exact .ok he
  | case9 s loc fn arg hid =>
    obtain ⟨loc', fn', arg', rfl, hfn, harg⟩ := he.of_app
    rw [Term.force, if_neg (hs.isIdentity ▸ hid)]
    refine (defer hs fn hfn).bind ?_
    intro first first' hfirst
    refine (defer hs arg harg).bind ?_
    intro second second' hsecond
    exact .ok (.app hfirst hsecond)
  | case10 s loc hid =>
    obtain ⟨loc', rfl⟩ := he.of_unknown
    rw [Term.force, if_pos (hs.isIdentity ▸ hid)]
    exact .ok he
  | case11 s loc hid =>
    obtain ⟨loc', rfl⟩ := he.of_unknown
    rw [Term.force, if_neg (hs.isIdentity ▸ hid)]
    exact .raise rfl rfl

/-- **Exposing.** -/
theorem expose {e e' : Term} (he : e.Same e') : Match Same e.expose e'.expose := by
  cases e with
  | var loc k =>
    obtain ⟨loc', rfl⟩ := he.of_var
    exact .ok he
  | lam loc hint body =>
    obtain ⟨loc', body', rfl, -⟩ := he.of_lam
    exact .ok he
  | app loc fn arg =>
    obtain ⟨loc', fn', arg', rfl, -⟩ := he.of_app
    exact .ok he
  | pending loc s body =>
    obtain ⟨loc', s', body', rfl, hs, hbody⟩ := he.of_pending
    exact force hs hbody
  | unknown loc =>
    obtain ⟨loc', rfl⟩ := he.of_unknown
    exact .ok he

end Same

/-- Two agendas that look for the same indices, in nodes that are the same up to spans. -/
inductive Agenda.Same : Agenda → Agenda → Prop where
  | nil : Same [] []
  | cons {target : Int} {node node' : Term} {rest rest' : Agenda} (hnode : node.Same node')
    (hrest : Same rest rest') : Same ((target, node) :: rest) ((target, node') :: rest')

/-- **Searching.** -/
theorem Agenda.Same.search {agenda agenda' : Agenda} (h : agenda.Same agenda') :
    Failure.Agree Alike (search agenda) (search agenda') := by
  fun_induction Term.search agenda generalizing agenda' with
  | case1 =>
    cases h
    rw [Term.search]
    exact .ok false
  | case2 target node rest x hexp =>
    cases h with
    | cons hnode hrest =>
      obtain ⟨x', hx', halike⟩ := hnode.expose.of_error hexp
      rw [search_cons, hx']
      exact .error halike
  | case3 node rest loc target hexp =>
    cases h with
    | @cons _ _ node' _ rest' hnode hrest =>
      obtain ⟨r', hr', hsame⟩ := hnode.expose.of_ok hexp
      obtain ⟨loc', rfl⟩ := hsame.of_var
      rw [search_cons target node', hr']
      show Failure.Agree Alike _ (if target = target then .ok true else _)
      rw [if_pos rfl]
      exact .ok true
  | case4 target node rest loc index hexp hne ih =>
    cases h with
    | @cons _ _ node' _ rest' hnode hrest =>
      obtain ⟨r', hr', hsame⟩ := hnode.expose.of_ok hexp
      obtain ⟨loc', rfl⟩ := hsame.of_var
      rw [search_cons target node', hr']
      show Failure.Agree Alike _ (if index = target then .ok true else _)
      rw [if_neg hne]
      exact ih hrest
  | case5 target node rest loc hint body hexp ih =>
    cases h with
    | @cons _ _ node' _ rest' hnode hrest =>
      obtain ⟨r', hr', hsame⟩ := hnode.expose.of_ok hexp
      obtain ⟨loc', body', rfl, hbody⟩ := hsame.of_lam
      rw [search_cons target node', hr']
      exact ih (.cons hbody hrest)
  | case6 target node rest loc fn arg hexp ih =>
    cases h with
    | @cons _ _ node' _ rest' hnode hrest =>
      obtain ⟨r', hr', hsame⟩ := hnode.expose.of_ok hexp
      obtain ⟨loc', fn', arg', rfl, hfn, harg⟩ := hsame.of_app
      rw [search_cons target node', hr']
      exact ih (.cons hfn (.cons harg hrest))
  | case7 target node rest r hvar hlam happ hexp =>
    cases h with
    | @cons _ _ node' _ rest' hnode hrest =>
      obtain ⟨r', hr', hsame⟩ := hnode.expose.of_ok hexp
      obtain ⟨loc, rfl⟩ := exists_unknown_of_expose hexp hvar hlam happ
      obtain ⟨loc', rfl⟩ := hsame.of_unknown
      rw [search_cons target node', hr']
      exact .error (.raise ⟨rfl, rfl⟩)

namespace Same

/-- **Free occurrence.** -/
theorem occurs {e e' : Term} (he : e.Same e') (k : Int) :
    Failure.Agree Alike (e.occurs k) (e'.occurs k) :=
  Agenda.Same.search (.cons he .nil)

/-- **A run of abstractions** has the same hints, above bodies that are the same. -/
theorem run {e e' : Term} (he : e.Same e') :
    Match (fun found found' => found.1 = found'.1 ∧ found.2.Same found'.2) e.run e'.run := by
  fun_induction Term.run e generalizing e' with
  | case1 e x hexp =>
    obtain ⟨x', hx', halike⟩ := he.expose.of_error hexp
    rw [run_eq, hx']
    exact .error halike
  | case2 e loc hint body hexp ih =>
    obtain ⟨r', hr', hsame⟩ := he.expose.of_ok hexp
    obtain ⟨loc', body', rfl, hbody⟩ := hsame.of_lam
    rw [run_eq e', hr']
    refine (ih hbody).bind ?_
    rintro ⟨hints, inner⟩ ⟨hints', inner'⟩ ⟨rfl, hinner⟩
    exact .ok ⟨rfl, hinner⟩
  | case3 e inner hlam hexp =>
    obtain ⟨r', hr', hsame⟩ := he.expose.of_ok hexp
    rw [run_eq, hr']
    cases r' with
    | lam loc' hint' body' =>
      -- the run would go on in both terms
      obtain ⟨loc, body, rfl, -⟩ := of_lam hsame.symm
      exact absurd rfl (hlam loc hint' body)
    | _ => exact .ok ⟨rfl, hsame⟩

end Same

end Term

/-! ## Printing -/

namespace Printer

open Print

/-- **Terms that are the same up to spans are printed side by side.** -/
theorem term_same (p : Printer) (context : List String) : (e : Term) → {e' : Term} →
    e.Same e' → (max : Option Int) →
    Parallel Alike (p.term context e max) (p.term context e' max)
  | .var loc k, e', he, max => by
    obtain ⟨loc', rfl⟩ := he.of_var
    exact p.parallel_var (.raise ⟨rfl, rfl⟩) max
  | .pending loc s body, e', he, max => by
    obtain ⟨loc', s', body', rfl, hs, hbody⟩ := he.of_pending
    rw [term, term]
    refine Parallel.unlessFull ?_ _ _
    cases hforce : body.force s with
    | error x =>
      obtain ⟨x', hx', halike⟩ := (Term.Same.force hs hbody).of_error hforce
      rw [hx']
      exact parallel_throw halike
    | ok r =>
      obtain ⟨r', hr', hsame⟩ := (Term.Same.force hs hbody).of_ok hforce
      rw [hr']
      exact term_same p context r hsame max
  | .lam loc hint body, e', he, max => by
    obtain ⟨loc', body', rfl, hbody⟩ := he.of_lam
    cases hrun : body.run with
    | error x =>
      obtain ⟨x', hx', halike⟩ := hbody.run.of_error hrun
      rw [term, term]
      refine Parallel.unlessFull (Parallel.framed ?_ max Level.lam) _ _
      rw [hrun, hx']
      exact parallel_throw halike
    | ok found =>
      obtain ⟨hints, inner⟩ := found
      obtain ⟨⟨hints', inner'⟩, hrun', hhints, hinner⟩ := hbody.run.of_ok hrun
      obtain rfl : hints = hints' := hhints
      exact p.parallel_lam hrun hrun' (fun k => hinner.occurs k) (.refl inner 0 _)
        (fun context => term_same p context inner hinner none) max
  | .app loc fn arg, e', he, max => by
    obtain ⟨loc', fn', arg', rfl, hfn, harg⟩ := he.of_app
    exact p.parallel_app (term_same p context fn hfn (some Level.app))
      (term_same p context arg harg (some 0)) max
  | .unknown loc, e', he, max => by
    obtain ⟨loc', rfl⟩ := he.of_unknown
    rw [term, term]
    exact (parallel_throw (.raise ⟨rfl, rfl⟩)).unlessFull _ _
termination_by e => e.weight
decreasing_by
  · exact Term.weight_force_lt hforce loc
  · exact Term.weight_run_lt hrun loc hint
  · exact Term.weight_fn_lt loc fn arg
  · exact Term.weight_arg_lt loc fn arg

/-- **Spans are inert.** Let two substitutions `s` and `s'`, two substitutions `t` and `t'`, and two
terms `e` and `e'` differ in spans only. Then composing, deferring, forcing and exposing either both
succeed, with results that differ in spans only, or both fail, and searching for an index and
printing either both give the same answer or text, or both fail. Where both fail, the failures are
equal, or they come from raising faults of the same family that concern the same values up to
spans. -/
theorem spans_inert {s s' t t' : Subst} {e e' : Term} (hs : s.Same s') (ht : t.Same t')
    (he : e.Same e') :
    Match Term.Same (e.defer s) (e'.defer s') ∧
    Match Subst.Same (s.compose t) (s'.compose t') ∧
    Match Term.Same (e.force s) (e'.force s') ∧
    Match Term.Same e.expose e'.expose ∧
    (∀ k, Failure.Agree Alike (e.occurs k) (e'.occurs k)) ∧
    ∀ (p : Printer) (context : List String) (max : Option Int) (desk : Desk),
      Failure.Agree Alike ((p.format context e max).runAt desk).1
        ((p.format context e' max).runAt desk).1 := by
  refine ⟨Term.Same.defer hs e he, hs.compose t ht, Term.Same.force hs he, he.expose, he.occurs, ?_⟩
  intro p context max desk
  exact ((p.term_same context e he max).apart p.style.maxGroups desk desk (.refl desk)).1

/-- A substitution whose entry was read from a place, or from nowhere, cannot follow a shift down by
one, and is shown by the failure. Over an application it is put before both parts. -/
theorem spans_inert_entry :
    let span : Span := ⟨⟨"", 1, 0, 2⟩, ⟨"", 1, 0, 3⟩⟩
    let s := Subst.dot (.var (some span) 0) (.shift 1)
    let s' := Subst.dot (.var none 0) (.shift 1)
    let t := Subst.shift (-1)
    let e := Term.app none (.var (some span) 1) (.var none 0)
    let e' := Term.app (some span) (.var none 1) (.var none 0)
    let p : Printer := {}
    s ≠ s' ∧ e ≠ e' ∧ s.Same s' ∧ t.Same t ∧ e.Same e' ∧
      (∃ cause cause', s.compose t = .error (.fault cause) ∧
        s'.compose t = .error (.fault cause') ∧ cause ≠ cause' ∧ cause.Same cause') ∧
      (∃ r r', e.force s = .ok r ∧ e'.force s' = .ok r' ∧ r ≠ r' ∧ r.Same r') ∧
      Failure.Agree Alike ((p.format [] e none).runAt (.blank 200)).1
        ((p.format [] e' none).runAt (.blank 200)).1 := by
  intro span s s' t e e' p
  have hs : s.Same s' := rfl
  have ht : t.Same t := rfl
  have he : e.Same e' := rfl
  obtain ⟨-, hcompose, hforce, -, -, hformat⟩ := spans_inert hs ht he
  refine ⟨by decide, by decide, hs, ht, he, ?_, ?_, hformat p [] none (.blank 200)⟩
  · have hshort (i : Int) (hi : i.natAbs < 10) : Decimal.Writable i :=
      Decimal.writable_of_natAbs_lt hi
    have hleft : s.compose t = .error (.fault (.incomposable s t)) := by
      have hwritable : (Fault.incomposable s t).writable = true := by
        simp [s, t, span, Fault.writable, Subst.writable, Term.writable, Span.writable?,
          Span.writable, Position.writable, hshort]
      exact congrArg Except.error (if_pos hwritable)
    have hright : s'.compose t = .error (.fault (.incomposable s' t)) := by
      have hwritable : (Fault.incomposable s' t).writable = true := by
        simp [s', t, Fault.writable, Subst.writable, Term.writable, Span.writable?, hshort]
      exact congrArg Except.error (if_pos hwritable)
    obtain ⟨x', hx', halike⟩ := hcompose.of_error hleft
    rw [hright] at hx'
    cases hx'
    obtain ⟨cause', hcause', hsame⟩ := halike.of_fault (by simp)
    cases hcause'
    exact ⟨_, _, hleft, hright, by decide, hsame⟩
  · have hleft : e.force s = .ok (.app none (.pending (some span) s (.var (some span) 1))
        (.pending none s (.var none 0))) := by
      simp only [e, s, span]
      cbv
    have hright : e'.force s' = .ok (.app (some span) (.pending none s' (.var none 1))
        (.pending none s' (.var none 0))) := by
      simp only [e', s', span]
      cbv
    obtain ⟨r', hr', hsame⟩ := hforce.of_ok hleft
    rw [hright] at hr'
    cases hr'
    exact ⟨_, _, hleft, hright, by decide, hsame⟩

end Printer

end Nameless
