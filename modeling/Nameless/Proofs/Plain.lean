import Nameless.Term.Equality

/-!
# Plain lambda terms

The other side of what is proved about pending substitutions: lambda terms with nothing pending,
indices that are natural numbers, and the parallel substitution of the textbooks, by structural
recursion.

A substitution is here a function from indices to terms, an **assignment**. Below a binder it is
lifted: the bound variable stays, everything else is renamed past it.

* **Substitutions compose** (`Plain.subst_subst`): one after the other is the same as the one that
  assigns to each index what the second makes of the first.
* **Renaming is a substitution by variables** (`Plain.rename_eq_subst`), so the laws of renaming
  only serve to get there.
-/

namespace Nameless

/-- Lambda terms without pending substitutions. -/
inductive Plain where
  /-- A variable, by index. -/
  | var (index : Nat)
  /-- An abstraction with the name that was written for its variable. -/
  | lam (hint : String) (body : Plain)
  /-- An application. -/
  | app (fn arg : Plain)
deriving DecidableEq

namespace Plain

/-- The abstraction of a term over a list of hints, outermost first. -/
def lams (hints : List String) (e : Plain) : Plain := hints.foldr lam e

/-- Abstracting over nothing changes nothing. -/
@[simp] theorem lams_nil (e : Plain) : lams [] e = e := rfl

/-- The first hint is outermost. -/
@[simp] theorem lams_cons (hint : String) (hints : List String) (e : Plain) :
    lams (hint :: hints) e = lam hint (lams hints e) := rfl

/-! ## Renaming -/

/-- A renaming taken below a binder. -/
def liftIndex (ρ : Nat → Nat) : Nat → Nat
  | 0 => 0
  | k + 1 => ρ k + 1

/-- The innermost variable stays. -/
@[simp] theorem liftIndex_zero (ρ : Nat → Nat) : liftIndex ρ 0 = 0 := rfl

/-- A variable from further out is renamed as it is there. -/
@[simp] theorem liftIndex_succ (ρ : Nat → Nat) (k : Nat) : liftIndex ρ (k + 1) = ρ k + 1 := rfl

/-- Renames the free variables of a term. -/
def rename (ρ : Nat → Nat) : Plain → Plain
  | var k => var (ρ k)
  | lam hint body => lam hint (body.rename (liftIndex ρ))
  | app fn arg => app (fn.rename ρ) (arg.rename ρ)

/-- Two renamings are taken below a binder one by one. -/
theorem liftIndex_comp (ρ ρ' : Nat → Nat) :
    liftIndex (fun k => ρ' (ρ k)) = fun k => liftIndex ρ' (liftIndex ρ k) := by
  funext k
  cases k with
  | zero => rfl
  | succ k => rfl

/-- Renaming twice is renaming once. -/
theorem rename_rename (e : Plain) (ρ ρ' : Nat → Nat) :
    (e.rename ρ).rename ρ' = e.rename fun k => ρ' (ρ k) := by
  induction e generalizing ρ ρ' with
  | var k => rfl
  | lam hint body ih => simp only [rename, ih, liftIndex_comp]
  | app fn arg ihf iha => simp only [rename, ihf, iha]

/-! ## Substitution -/

/-- What each index is replaced by. -/
abbrev Assignment := Nat → Plain

namespace Assignment

/-- Every index goes to the one `n` further out. -/
def shift (n : Nat) : Assignment := fun k => var (k + n)

/-- Index `0` goes to `head`, and `k + 1` to what `rest` assigns to `k`. -/
def cons (head : Plain) (rest : Assignment) : Assignment
  | 0 => head
  | k + 1 => rest k

/-- An assignment taken below a binder: the bound variable stays, and what is assigned to the
others is renamed past it. -/
def lift (σ : Assignment) : Assignment := cons (var 0) fun k => (σ k).rename (· + 1)

/-- A shift adds to every index. -/
@[simp] theorem shift_apply (n k : Nat) : shift n k = var (k + n) := rfl

/-- The first term is for index `0`. -/
@[simp] theorem cons_zero (head : Plain) (rest : Assignment) : cons head rest 0 = head := rfl

/-- The other indices count from the rest. -/
@[simp] theorem cons_succ (head : Plain) (rest : Assignment) (k : Nat) :
    cons head rest (k + 1) = rest k := rfl

/-- Below a binder, the innermost variable stays. -/
@[simp] theorem lift_zero (σ : Assignment) : σ.lift 0 = var 0 := rfl

/-- Below a binder, what stands for a variable from further out has its indices raised. -/
@[simp] theorem lift_succ (σ : Assignment) (k : Nat) :
    σ.lift (k + 1) = (σ k).rename (· + 1) := rfl

/-- Below a binder, the identity is the identity. -/
theorem lift_var : lift var = var := by
  funext k
  cases k with
  | zero => rfl
  | succ k => rfl

/-- A renaming and then an assignment are taken below a binder one by one. -/
theorem lift_comp_liftIndex (σ : Assignment) (ρ : Nat → Nat) :
    (fun k => σ.lift (liftIndex ρ k)) = lift fun k => σ (ρ k) := by
  funext k
  cases k with
  | zero => rfl
  | succ k => rfl

/-- An assignment and then a renaming are taken below a binder one by one. -/
theorem rename_lift (σ : Assignment) (ρ : Nat → Nat) :
    (fun k => (σ.lift k).rename (liftIndex ρ)) = lift fun k => (σ k).rename ρ := by
  funext k
  cases k with
  | zero => rfl
  | succ k => simp only [lift_succ, rename_rename, liftIndex_succ]

end Assignment

/-- Carries an assignment out on a term. -/
def subst (σ : Assignment) : Plain → Plain
  | var k => σ k
  | lam hint body => lam hint (body.subst σ.lift)
  | app fn arg => app (fn.subst σ) (arg.subst σ)

/-- The body of an abstraction with an argument for the bound variable: the beta step. -/
def instantiate (body arg : Plain) : Plain := body.subst (Assignment.cons arg var)

/-- Renaming is substituting variables. -/
theorem rename_eq_subst (e : Plain) (ρ : Nat → Nat) : e.rename ρ = e.subst fun k => var (ρ k) := by
  induction e generalizing ρ with
  | var k => rfl
  | lam hint body ih =>
    have hlift : Assignment.lift (fun k => var (ρ k)) = fun k => var (liftIndex ρ k) := by
      funext k
      cases k with
      | zero => rfl
      | succ k => rfl
    rw [rename, subst, ih, hlift]
  | app fn arg ihf iha => simp only [rename, subst, ihf, iha]

/-- Substituting every variable for itself changes nothing. -/
@[simp] theorem subst_var (e : Plain) : e.subst var = e := by
  induction e with
  | var k => rfl
  | lam hint body ih => rw [subst, Assignment.lift_var, ih]
  | app fn arg ihf iha => rw [subst, ihf, iha]

/-- Renaming and then substituting is one substitution. -/
theorem subst_rename (e : Plain) (ρ : Nat → Nat) (σ : Assignment) :
    (e.rename ρ).subst σ = e.subst fun k => σ (ρ k) := by
  induction e generalizing ρ σ with
  | var k => rfl
  | lam hint body ih => rw [rename, subst, subst, ih, Assignment.lift_comp_liftIndex]
  | app fn arg ihf iha => simp only [rename, subst, ihf, iha]

/-- Substituting and then renaming is one substitution. -/
theorem rename_subst (e : Plain) (σ : Assignment) (ρ : Nat → Nat) :
    (e.subst σ).rename ρ = e.subst fun k => (σ k).rename ρ := by
  induction e generalizing σ ρ with
  | var k => rfl
  | lam hint body ih => rw [subst, rename, subst, ih, Assignment.rename_lift]
  | app fn arg ihf iha => simp only [rename, subst, ihf, iha]

/-- Two assignments one after the other, taken below a binder. -/
theorem Assignment.subst_lift (σ τ : Assignment) :
    (fun k => (σ.lift k).subst τ.lift) = lift fun k => (σ k).subst τ := by
  funext k
  cases k with
  | zero => rfl
  | succ k => simp only [lift_succ, subst_rename, rename_subst]

/-- **Substitutions compose**: carrying `σ` out and then `τ` is carrying out what `τ` makes of
`σ`. -/
theorem subst_subst (e : Plain) (σ τ : Assignment) :
    (e.subst σ).subst τ = e.subst fun k => (σ k).subst τ := by
  induction e generalizing σ τ with
  | var k => rfl
  | lam hint body ih => rw [subst, subst, subst, ih, Assignment.subst_lift]
  | app fn arg ihf iha => simp only [subst, ihf, iha]

/-! ## Back to terms -/

/-- A plain term as a term, read from nowhere. -/
def toTerm : Plain → Term
  | var k => .var none k
  | lam hint body => .lam none hint body.toTerm
  | app fn arg => .app none fn.toTerm arg.toTerm

/-- A plain term is written without spans. -/
@[simp] theorem bare_toTerm (e : Plain) : e.toTerm.bare = e.toTerm := by
  induction e with
  | var k => rfl
  | lam hint body ih => rw [toTerm, Term.bare, ih]
  | app fn arg ihf iha => rw [toTerm, Term.bare, ihf, iha]

end Plain

end Nameless
