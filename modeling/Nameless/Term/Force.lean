import Nameless.Term.Cost

/-!
# Carrying substitutions out, one node at a time

`e.force s` applies the substitution `s` to the head of `e`. The head of the result is never
pending; its children carry substitutions of their own, to be forced when they are visited.
`e.expose` does this for a term that is itself pending, and `e.forceAll` goes on into all children.

All of this ends on every input: `e.cost` under the charges of `s` bounds the steps of forcing, and
`e.weight` bounds the steps of any walk that exposes one node after the other.

* **A replacement is paid for by its variable** (`Subst.entry_le_charge`), so forcing ends.
* **A forced head is never pending** (`Term.isPending_force`).
* **Exposing does not raise the weight** (`Term.weight_expose_le`), and the children of a node weigh
  less than the node (`Term.weight_body_lt`, `Term.weight_fn_arg_lt`).
-/

namespace Nameless

/-- What a substitution sends the index `k` to. The index may run below zero on its way past dots.
The span of the variable and its index at the start are there for the report. -/
def Subst.lookup (span : Option Span) (index : Int) : Subst → Int → Except Failure Term
  | .shift n, k =>
    if k + n < 0 then .error (.raise (.negative index (k + n) span)) else .ok (.var span (k + n))
  | .dot head rest, k => if k = 0 then .ok head else rest.lookup span index (k - 1)
  | .unknown, _ => .error (.raise (.unknownSubst .unknown span))

/-- A substitution taken below a binder: the bound variable stays, the rest is shifted by one. -/
def Subst.lifted (s : Subst) : Except Failure Subst := do
  let rest ← Subst.compose (.shift 1) s
  return .dot (.var none 0) rest

/-- What a pending entry costs is part of the charge of its index. -/
theorem Subst.entry_le_charge {s : Subst} {loc : Option Span} {i k : Int} {e : Term}
    (h : s.lookup loc i k = .ok e) (ρ : Charge) :
    (∃ j, e = .var loc j) ∨ e.entry (e.cost ρ) ≤ s.charge ρ k := by
  fun_induction Subst.lookup loc i s k with
  | case1 => cases h
  | case2 n k hk => cases h; exact .inl ⟨_, rfl⟩
  | case3 head rest =>
    cases h
    refine .inr ?_
    simp only [Subst.charge, if_true]
    omega
  | case4 head rest k hk ih =>
    refine (ih h).imp id fun hle => ?_
    simpa only [Subst.charge, hk, if_false] using hle
  | case5 => cases h

/-- Without charges at the variables, a substitution hands no charge to indices below zero. -/
theorem Subst.charge_zero_neg : (s : Subst) → {k : Int} → k < 0 → s.charge Charge.zero k = 0
  | .shift _, _, _ => rfl
  | .dot head rest, k, hk => by
    have h0 : k ≠ 0 := by omega
    simp only [Subst.charge, h0, if_false]
    exact rest.charge_zero_neg (by omega)
  | .unknown, _, _ => rfl

/-- A lifted substitution hands down lifted charges at most. -/
theorem Subst.charge_lifted_le {s t : Subst} (h : s.lifted = .ok t) (k : Int) :
    t.charge Charge.zero k ≤ (s.charge Charge.zero).lift k := by
  obtain ⟨rest, hrest, h⟩ := Failure.bind_eq_ok.1 h
  cases h
  have hle : ∀ j, rest.charge Charge.zero j ≤ s.charge Charge.zero j := fun j => by
    exact Subst.charge_compose_le s hrest Charge.zero j
  simp only [Subst.charge, Charge.lift]
  split
  · have := hle (-1)
    have : s.charge Charge.zero (-1) = 0 := s.charge_zero_neg (by omega)
    have : (Term.var none 0).entry ((Term.var none 0).cost Charge.zero) = 2 := rfl
    omega
  · exact hle _

/-- Applies a substitution to the head of a term. -/
def Term.force (s : Subst) (e : Term) : Except Failure Term :=
  match e with
  | .pending _ t body =>
    match _h : s.compose t with
    | .error x => .error x
    | .ok merged => body.force merged
  | .var loc k =>
    match _h : s.lookup loc k k with
    | .error x => .error x
    -- A pending replacement already lives in the target scope, so the identity is what is left.
    | .ok r => if _hr : r.isPending then r.force .identity else .ok r
  | .lam loc hint body =>
    if s.isIdentity then .ok (.lam loc hint body)
    else do
      let below ← s.lifted
      let body ← body.defer below
      return .lam loc hint body
  | .app loc fn arg =>
    if s.isIdentity then .ok (.app loc fn arg)
    else do
      let fn ← fn.defer s
      let arg ← arg.defer s
      return .app loc fn arg
  | .unknown loc =>
    if s.isIdentity then .ok (.unknown loc) else .error (.raise (.unforceable (.unknown loc)))
termination_by e.cost (s.charge Charge.zero)
decreasing_by
  · have := body.cost_mono (t.charge_compose_le _h Charge.zero)
    simp only [Term.cost]
    omega
  · rw [Subst.charge_of_isIdentity (by rfl)]
    rcases Subst.entry_le_charge _h Charge.zero with ⟨j, rfl⟩ | hle
    · simp [Term.isPending] at _hr
    · have := r.le_entry (r.cost Charge.zero)
      simp only [Term.cost]
      omega

namespace Term

/-- Over a pending term, forcing goes on with the composition. -/
theorem force_pending (s : Subst) (loc : Option Span) (t : Subst) (body : Term) :
    (pending loc t body).force s = s.compose t >>= fun merged => body.force merged := by
  rw [force]
  cases s.compose t with
  | _ => rfl

/-- At a variable, forcing goes on with a replacement that is pending itself. -/
theorem force_var (s : Subst) (loc : Option Span) (k : Int) :
    (var loc k).force s = s.lookup loc k k >>= fun r =>
      if r.isPending then r.force .identity else .ok r := by
  rw [force]
  cases s.lookup loc k k with
  | _ => rfl

/-- The term with its head in the open: forced if it is pending, unchanged if it is not. -/
def expose : Term → Except Failure Term
  | pending _ s body => body.force s
  | e => .ok e

/-- The work below the head of a term, and for a pending term the work of forcing it as well. -/
def weight : Term → Nat
  | var .. | unknown .. => 0
  | lam _ _ body => body.cost Charge.zero + 1
  | app _ fn arg => fn.cost Charge.zero + arg.cost Charge.zero + 1
  | pending _ s body => body.cost (s.charge Charge.zero) + 1

/-- An abstraction weighs one more than its body costs. -/
@[simp] theorem weight_lam (loc : Option Span) (hint : String) (body : Term) :
    (lam loc hint body).weight = body.cost Charge.zero + 1 := rfl

/-- An application weighs one more than both parts cost. -/
@[simp] theorem weight_app (loc : Option Span) (fn arg : Term) :
    (app loc fn arg).weight = fn.cost Charge.zero + arg.cost Charge.zero + 1 := rfl

/-- A pending substitution weighs one more than its body costs under it. -/
@[simp] theorem weight_pending (loc : Option Span) (s : Subst) (body : Term) :
    (pending loc s body).weight = body.cost (s.charge Charge.zero) + 1 := rfl

/-- A term weighs no more than it costs. -/
theorem weight_le_cost (e : Term) : e.weight ≤ e.cost Charge.zero := by
  cases e with
  | lam _ _ body =>
    have := body.cost_mono (ρ := Charge.zero) (σ := Charge.zero.lift) fun k => Nat.zero_le _
    simp only [weight, cost]
    omega
  | _ => simp only [weight, cost]; omega

/-- The body of an abstraction weighs less than the abstraction. -/
theorem weight_body_lt (loc : Option Span) (hint : String) (body : Term) :
    body.weight < (lam loc hint body).weight := by
  have := body.weight_le_cost
  rw [weight_lam]
  omega

/-- The two parts of an application together weigh less than the application. -/
theorem weight_fn_arg_lt (loc : Option Span) (fn arg : Term) :
    fn.weight + arg.weight < (app loc fn arg).weight := by
  have := fn.weight_le_cost
  have := arg.weight_le_cost
  rw [weight_app]
  omega

/-- The function of an application weighs less. -/
theorem weight_fn_lt (loc : Option Span) (fn arg : Term) :
    fn.weight < (app loc fn arg).weight := by
  have := weight_fn_arg_lt loc fn arg
  omega

/-- The argument of an application weighs less. -/
theorem weight_arg_lt (loc : Option Span) (fn arg : Term) :
    arg.weight < (app loc fn arg).weight := by
  have := weight_fn_arg_lt loc fn arg
  omega

/-- A deferred term costs one step more at most. -/
theorem cost_defer_le {e e' : Term} {s : Subst} (h : e.defer s = .ok e') (ρ : Charge) :
    e'.cost ρ ≤ e.cost (s.charge ρ) + 1 := by
  have := e'.le_entry (e'.cost ρ)
  have := e.entry_defer_le h ρ
  have := e.entry_le (e.cost (s.charge ρ))
  omega

/-- The head that forcing brings out weighs no more than the work of forcing. -/
theorem weight_force_le {e r : Term} {s : Subst} (h : e.force s = .ok r) :
    r.weight ≤ e.cost (s.charge Charge.zero) := by
  fun_induction Term.force s e with
  | case1 => cases h
  | case2 s loc t body merged hm ih =>
    have := ih h
    have := body.cost_mono (t.charge_compose_le hm Charge.zero)
    simp only [cost]
    omega
  | case3 => cases h
  | case4 s loc k r' hl hp ih =>
    have := ih h
    rw [Subst.charge_of_isIdentity (by rfl)] at this
    rcases Subst.entry_le_charge hl Charge.zero with ⟨j, rfl⟩ | hle
    · simp [isPending] at hp
    · have := r'.le_entry (r'.cost Charge.zero)
      simp only [cost]
      omega
  | case5 s loc k r' hl hp =>
    cases h
    rcases Subst.entry_le_charge hl Charge.zero with ⟨j, rfl⟩ | hle
    · simp [weight]
    · have := r.le_entry (r.cost Charge.zero)
      have := r.weight_le_cost
      simp only [cost]
      omega
  | case6 s loc hint body hid =>
    cases h
    have := body.cost_mono (ρ := Charge.zero) (σ := (s.charge Charge.zero).lift)
      fun k => Nat.zero_le _
    simp only [weight, cost]
    omega
  | case7 s loc hint body hid =>
    obtain ⟨below, hbelow, h⟩ := Failure.bind_eq_ok.1 h
    obtain ⟨body', hbody, h⟩ := Failure.bind_eq_ok.1 h
    cases h
    have := cost_defer_le hbody Charge.zero
    have := body.cost_mono (Subst.charge_lifted_le hbelow)
    simp only [weight, cost]
    omega
  | case8 s loc fn arg hid =>
    cases h
    have := fn.cost_mono (ρ := Charge.zero) (σ := s.charge Charge.zero) fun k => Nat.zero_le _
    have := arg.cost_mono (ρ := Charge.zero) (σ := s.charge Charge.zero) fun k => Nat.zero_le _
    simp only [weight, cost]
    omega
  | case9 s loc fn arg hid =>
    obtain ⟨fn', hfn, h⟩ := Failure.bind_eq_ok.1 h
    obtain ⟨arg', harg, h⟩ := Failure.bind_eq_ok.1 h
    cases h
    have := cost_defer_le hfn Charge.zero
    have := cost_defer_le harg Charge.zero
    simp only [weight, cost]
    omega
  | case10 => cases h; simp [weight]
  | case11 => cases h

/-- What a pending node comes to weighs less than the node. -/
theorem weight_force_lt {body r : Term} {s : Subst} (h : body.force s = .ok r)
    (loc : Option Span) : r.weight < (pending loc s body).weight := by
  have := weight_force_le h
  rw [weight_pending]
  omega

/-- A forced head is never pending. -/
theorem isPending_force {e r : Term} {s : Subst} (h : e.force s = .ok r) : r.isPending = false := by
  fun_induction Term.force s e with
  | case2 _ _ _ _ _ _ ih | case4 _ _ _ _ _ _ ih => exact ih h
  | case5 s loc k r' hl hp => cases h; simpa using hp
  | case6 | case8 | case10 => cases h; rfl
  | case7 | case9 =>
    obtain ⟨_, _, h⟩ := Failure.bind_eq_ok.1 h
    obtain ⟨_, _, h⟩ := Failure.bind_eq_ok.1 h
    cases h
    rfl
  | case1 | case3 | case11 => cases h

/-- Exposing the head does not raise the weight. -/
theorem weight_expose_le {e r : Term} (h : e.expose = .ok r) : r.weight ≤ e.weight := by
  cases e with
  | pending loc s body =>
    have := weight_force_le (s := s) h
    rw [weight_pending]
    omega
  | _ => cases h; exact Nat.le_refl _

/-- An exposed head is never pending. -/
theorem isPending_expose {e r : Term} (h : e.expose = .ok r) : r.isPending = false := by
  cases e with
  | pending loc s body => exact isPending_force (s := s) h
  | _ => cases h; rfl

/-- An exposed head is exposed already. -/
theorem expose_of_expose {e r : Term} (h : e.expose = .ok r) : r.expose = .ok r := by
  cases r with
  | pending loc s body => exact absurd (isPending_expose h) (by simp [isPending])
  | _ => rfl

/-- An exposed head that is none of the known shapes is of no known shape. -/
theorem exists_unknown_of_expose {e r : Term} (h : e.expose = .ok r)
    (hvar : ∀ loc k, r = var loc k → False) (hlam : ∀ loc hint body, r = lam loc hint body → False)
    (happ : ∀ loc fn arg, r = app loc fn arg → False) : ∃ loc, r = unknown loc := by
  cases r with
  | var loc k => exact absurd rfl (hvar loc k)
  | lam loc hint body => exact absurd rfl (hlam loc hint body)
  | app loc fn arg => exact absurd rfl (happ loc fn arg)
  | pending loc s body => exact absurd (isPending_expose h) (by simp [isPending])
  | unknown loc => exact ⟨loc, rfl⟩

/-- Carries every pending substitution out: exposes the head, then goes on into the body of an
abstraction, or into the function and then the argument of an application. -/
def forceAll (e : Term) : Except Failure Term :=
  match _h : e.expose with
  | .error x => .error x
  | .ok (lam loc hint body) => do
    let body ← body.forceAll
    return lam loc hint body
  | .ok (app loc fn arg) => do
    let fn ← fn.forceAll
    let arg ← arg.forceAll
    return app loc fn arg
  | .ok r => .ok r
termination_by e.weight
decreasing_by
  · have := weight_expose_le _h
    have := weight_body_lt loc hint body
    omega
  · have := weight_expose_le _h
    have := weight_fn_arg_lt loc fn arg
    omega
  · have := weight_expose_le _h
    have := weight_fn_arg_lt loc fn arg
    omega

end Term

end Nameless
