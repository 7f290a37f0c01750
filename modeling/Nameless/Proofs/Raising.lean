import Nameless.Proofs.CarryingOut
import Nameless.Proofs.FreeVariables

/-!
# Shifting up, node by node

Carrying a positive shift out on a term in which nothing is pending rebuilds every node. Free
variables, abstractions and applications are rebuilt with the span that they were read from. A
bound variable is not rebuilt but replaced: below a binder, the lifted substitution sends index `0`
to a new variable, and that was read from nowhere.

* **The shift below `d` binders** is known in full (`Subst.raising`): one entry for each binder, and
  then the shift itself. Lifting adds the entry for one more binder (`Subst.lifted_raising`).
* **So the result is known in full** (`Term.forceAll_pending_raising`): it is the term with the
  indices of the free variables raised, and the spans of the bound ones gone (`Term.raised`).
* **Every node but a bound variable keeps its span** (`Term.forceAll_shift_span`), at every position
  of the tree; and a bound variable with a span does lose it (`Term.forceAll_shift_span_lost`).
-/

namespace Nameless

/-! ## The shift below binders -/

namespace Subst

/-- The entry for a binder, after `j` more binders have been crossed. -/
def binderEntry (j : Nat) : Term :=
  if j = 0 then .var none 0 else .pending none (.shift j) (.var none 0)

/-- The shift by `n` below binders, as far as it concerns the indices from `j` on: an entry for each
of `d` binders, and then what shifts the indices behind all of them. -/
def raising (n : Int) (j : Nat) : Nat → Subst
  | 0 => .shift (j + n)
  | d + 1 => .dot (binderEntry j) (raising n (j + 1) d)

/-- One more binder is crossed. -/
theorem defer_binderEntry (j : Nat) :
    (binderEntry j).defer (.shift 1) = .ok (binderEntry (j + 1)) := by
  cases j with
  | zero => rfl
  | succ j =>
    have hsum : (1 : Int) + ((j + 1 : Nat) : Int) = ((j + 1 + 1 : Nat) : Int) := by omega
    show (Term.pending none (.shift ((j + 1 : Nat) : Int)) (.var none 0)).defer (.shift 1) = _
    rw [Term.defer, if_neg (by simp), compose, afterShift, hsum]
    rfl

/-- Every entry crosses one more binder. -/
theorem compose_raising (n : Int) (j d : Nat) :
    compose (.shift 1) (raising n j d) = .ok (raising n (j + 1) d) := by
  induction d generalizing j with
  | zero =>
    have hsum : 1 + ((j : Int) + n) = ((j + 1 : Nat) : Int) + n := by omega
    rw [raising, compose, afterShift, hsum]
    rfl
  | succ d ih =>
    rw [raising, compose, defer_binderEntry, ih]
    rfl

/-- **Lifting adds the entry for one more binder.** -/
theorem lifted_raising (n : Int) (d : Nat) :
    (raising n 0 d).lifted = .ok (raising n 0 (d + 1)) := by
  rw [lifted, compose_raising]
  rfl

/-- A positive shift is not the identity, below any number of binders. -/
theorem isIdentity_raising {n : Int} (hn : 1 ≤ n) (d : Nat) :
    (raising n 0 d).isIdentity = false := by
  cases d with
  | zero =>
    rw [Bool.eq_false_iff, raising, Ne, isIdentity_shift]
    omega
  | succ d => rfl

/-- A bound index is found at the entry for its binder, a free one is shifted. -/
theorem lookup_raising (loc : Option Span) (i : Int) {n : Int} (hn : 0 ≤ n) (j d k : Nat) :
    (raising n j d).lookup loc i k =
      .ok (if k < d then binderEntry (j + k) else .var loc (k + (j + n))) := by
  induction d generalizing j k with
  | zero =>
    rw [raising, lookup, if_neg (by omega), if_neg (Nat.not_lt_zero k)]
  | succ d ih =>
    cases k with
    | zero => rfl
    | succ k =>
      have hk : ((k + 1 : Nat) : Int) - 1 = k := by omega
      have hentry : j + 1 + k = j + (k + 1) := by omega
      have hindex : (k : Int) + (((j + 1 : Nat) : Int) + n) = ((k + 1 : Nat) : Int) + (j + n) := by
        omega
      rw [raising, lookup, if_neg (by omega), hk, ih, hentry, hindex]
      simp only [Nat.add_lt_add_iff_right]

end Subst

namespace Term

/-! ## The result -/

/-- The term, below `d` binders, with `n` added to the index of every variable that none of the
binders binds. A variable that is bound keeps its index and loses its span. -/
def raised (n : Int) : Nat → Term → Term
  | d, var loc index => if index < d then var none index else var loc (index + n)
  | d, lam loc hint body => lam loc hint (body.raised n (d + 1))
  | d, app loc fn arg => app loc (fn.raised n d) (arg.raised n d)
  | _, e => e

/-- What a variable of a binder comes to. -/
theorem force_binderEntry (j : Nat) :
    (if (Subst.binderEntry j).isPending then (Subst.binderEntry j).force .identity
      else .ok (Subst.binderEntry j)) = .ok (var none j) := by
  cases j with
  | zero => rfl
  | succ j =>
    show (pending none (.shift ((j + 1 : Nat) : Int)) (var none 0)).force .identity = _
    have hindex : (0 : Int) + ((j + 1 : Nat) : Int) = ((j + 1 : Nat) : Int) := by omega
    rw [force_pending, Subst.identity_compose_shift]
    show (var none 0).force (.shift ((j + 1 : Nat) : Int)) = _
    rw [force_var, Subst.lookup, if_neg (by omega), hindex]
    rfl

/-- A variable below binders, with the shift carried out. -/
theorem force_var_raising (loc : Option Span) {k n : Int} (hk : 0 ≤ k) (hn : 0 ≤ n) (d : Nat) :
    (var loc k).force (Subst.raising n 0 d) = .ok ((var loc k).raised n d) := by
  obtain ⟨m, rfl⟩ := Int.eq_ofNat_of_zero_le hk
  rw [force_var, Subst.lookup_raising loc m hn]
  by_cases hm : m < d
  · have hbound : ((m : Nat) : Int) < d := by omega
    rw [if_pos hm, raised, if_pos hbound, Nat.zero_add]
    exact force_binderEntry m
  · have hfree : ¬ ((m : Nat) : Int) < d := by omega
    rw [if_neg hm, raised, if_neg hfree, Int.natCast_zero, Int.zero_add]
    rfl

/-- A shift that waits over a plain term, itself below binders. -/
theorem defer_raising {n : Int} (hn : 1 ≤ n) {e : Term} (he : e.IsPlain) (d : Nat) :
    e.defer (Subst.raising n 0 d) = .ok (pending e.span (Subst.raising n 0 d) e) := by
  rw [defer_of_not_pending he.not_pending, Subst.isIdentity_raising hn]
  rfl

/-- **What a shift over a plain term comes to**, below any number of binders. -/
theorem forceAll_pending_raising {n : Int} (hn : 1 ≤ n) : (e : Term) → e.IsPlain → ∀ (d : Nat)
    (span : Option Span), (pending span (Subst.raising n 0 d) e).forceAll = .ok (e.raised n d)
  | var loc k, he, d, span => by
    have hexp : (pending span (Subst.raising n 0 d) (var loc k)).expose =
        .ok ((var loc k).raised n d) := force_var_raising loc he (by omega) d
    rw [forceAll_of_expose hexp, raised]
    split
    · exact forceAll_var none k
    · exact forceAll_var loc (k + n)
  | lam loc hint body, he, d, span => by
    have hbody : body.IsPlain := he
    have hexp : (pending span (Subst.raising n 0 d) (lam loc hint body)).expose =
        .ok (lam loc hint (pending body.span (Subst.raising n 0 (d + 1)) body)) := by
      show (lam loc hint body).force (Subst.raising n 0 d) = _
      rw [force, Subst.isIdentity_raising hn, if_neg Bool.false_ne_true, Subst.lifted_raising]
      exact Failure.bind_eq_ok.2 ⟨_, rfl, Failure.bind_eq_ok.2 ⟨_, defer_raising hn hbody _, rfl⟩⟩
    rw [forceAll_of_expose hexp, forceAll_lam_eq_ok]
    exact ⟨_, forceAll_pending_raising hn body hbody (d + 1) body.span, rfl⟩
  | app loc fn arg, he, d, span => by
    have hexp : (pending span (Subst.raising n 0 d) (app loc fn arg)).expose =
        .ok (app loc (pending fn.span (Subst.raising n 0 d) fn)
          (pending arg.span (Subst.raising n 0 d) arg)) := by
      show (app loc fn arg).force (Subst.raising n 0 d) = _
      rw [force, Subst.isIdentity_raising hn, if_neg Bool.false_ne_true, defer_raising hn he.1,
        defer_raising hn he.2]
      rfl
    rw [forceAll_of_expose hexp, forceAll_app_eq_ok]
    exact ⟨_, forceAll_pending_raising hn fn he.1 d fn.span, _,
      forceAll_pending_raising hn arg he.2 d arg.span, rfl⟩
  | pending _ _ _, he, _, _ => absurd he id
  | unknown _, he, _, _ => absurd he id

/-- What a positive shift of a plain term comes to. -/
theorem forceAll_shift_eq {n : Int} (hn : 1 ≤ n) {e : Term} (he : e.IsPlain) :
    (e.shift n >>= forceAll) = .ok (e.raised n 0) := by
  have hshift : Subst.raising n 0 0 = .shift n := by simp [Subst.raising]
  have hforced := forceAll_pending_raising hn e he 0 e.span
  have hdefer := defer_raising hn he 0
  rw [hshift] at hforced hdefer
  exact Failure.bind_eq_ok.2 ⟨_, hdefer, hforced⟩

end Term

/-! ## Positions -/

/-- A step from a node to one of its children. -/
inductive Branch where
  | body | fn | arg
deriving DecidableEq, Repr

/-- A node of a term, with the number of abstractions above it. -/
structure Site where
  depth : Nat
  node : Term

/-- The node is a variable that one of the abstractions above it binds. -/
def Site.Bound : Site → Prop
  | ⟨depth, .var _ index⟩ => index < depth
  | _ => False

instance : (a : Site) → Decidable a.Bound
  | ⟨depth, .var _ index⟩ => inferInstanceAs (Decidable (index < depth))
  | ⟨_, .lam ..⟩ | ⟨_, .app ..⟩ | ⟨_, .pending ..⟩ | ⟨_, .unknown _⟩ => .isFalse id

namespace Term

/-- The node at a position: what a path of branches leads to, in a term that stands below `depth`
abstractions. -/
def site? (depth : Nat) : Term → List Branch → Option Site
  | e, [] => some ⟨depth, e⟩
  | lam _ _ body, .body :: path => body.site? (depth + 1) path
  | app _ fn _, .fn :: path => fn.site? depth path
  | app _ _ arg, .arg :: path => arg.site? depth path
  | _, _ :: _ => none

/-- The empty path leads to the term itself. -/
@[simp] theorem site?_nil (depth : Nat) (e : Term) : e.site? depth [] = some ⟨depth, e⟩ := by
  cases e <;> rfl

/-- Raising works on each position by itself. -/
theorem site?_raised (n : Int) : (e : Term) → (depth : Nat) → (path : List Branch) →
    (e.raised n depth).site? depth path =
      (e.site? depth path).map fun a => ⟨a.depth, a.node.raised n a.depth⟩
  | e, depth, [] => by
    rw [site?_nil, site?_nil]
    rfl
  | var loc k, depth, b :: path => by
    rw [raised]
    split <;> cases b <;> rfl
  | lam loc hint body, depth, b :: path => by
    cases b with
    | body => exact site?_raised n body (depth + 1) path
    | _ => rfl
  | app loc fn arg, depth, b :: path => by
    cases b with
    | fn => exact site?_raised n fn depth path
    | arg => exact site?_raised n arg depth path
    | body => rfl
  | pending _ _ _, _, b :: _ => by cases b <;> rfl
  | unknown _, _, b :: _ => by cases b <;> rfl

/-- Raising keeps the kind of a node. -/
theorem kind_raised (n : Int) (d : Nat) (e : Term) : (e.raised n d).kind = e.kind := by
  cases e with
  | var loc k =>
    rw [raised]
    split <;> rfl
  | _ => rfl

/-- Raising keeps the span of a node that is no bound variable. -/
theorem span_raised (n : Int) (a : Site) :
    (a.node.raised n a.depth).span = if a.Bound then none else a.node.span := by
  obtain ⟨d, e⟩ := a
  cases e with
  | var loc k =>
    show ((var loc k).raised n d).span = if k < d then none else loc
    rw [raised]
    split <;> rfl
  | _ => rfl

/-- **Every node but a bound variable keeps its span.** Shifting a plain term up by `n` and carrying
everything out succeeds. The result has a node of the same kind at every position of the term, and
no other positions. A bound variable has no span in the result. Every other node has the span of
the node of the term at that position. So a span is kept everywhere exactly if no bound variable has
one. -/
theorem forceAll_shift_span {e : Term} (he : e.IsPlain) {n : Int} (hn : 1 ≤ n) :
    ∃ r, (e.shift n >>= forceAll) = .ok r ∧
      (∀ path, (r.site? 0 path).map (fun b => b.node.kind) =
        (e.site? 0 path).map fun a => a.node.kind) ∧
      (∀ path a b, e.site? 0 path = some a → r.site? 0 path = some b →
        b.node.span = if a.Bound then none else a.node.span) ∧
      ((∀ path a b, e.site? 0 path = some a → r.site? 0 path = some b →
          b.node.span = a.node.span) ↔
        ∀ path a, e.site? 0 path = some a → a.Bound → a.node.span = none) := by
  have hsite := site?_raised n e 0
  have hspan : ∀ path a b, e.site? 0 path = some a → (e.raised n 0).site? 0 path = some b →
      b.node.span = if a.Bound then none else a.node.span := by
    intro path a b ha hb
    rw [hsite, ha] at hb
    cases hb
    exact span_raised n a
  refine ⟨e.raised n 0, forceAll_shift_eq hn he, ?_, hspan, ?_, ?_⟩
  · intro path
    rw [hsite, Option.map_map]
    congr 1
    funext a
    exact kind_raised n a.depth a.node
  · intro hkept path a ha hbound
    have hb : (e.raised n 0).site? 0 path = some ⟨a.depth, a.node.raised n a.depth⟩ := by
      rw [hsite, ha]
      rfl
    rw [← hkept path a _ ha hb, hspan path a _ ha hb, if_pos hbound]
  · intro hnone path a b ha hb
    rw [hspan path a b ha hb]
    split
    · rename_i hbound
      exact (hnone path a ha hbound).symm
    · rfl

/-- In `λ x. 0 1`, the first variable is bound and has no span, the second is free and has one.
Shifted up by two, the free one keeps it. -/
theorem forceAll_shift_span_free :
    let loc : Span := ⟨⟨"", 1, 0, 7⟩, ⟨"", 1, 0, 8⟩⟩
    let e := lam none "x" (app none (var none 0) (var (some loc) 1))
    e.IsPlain ∧ (1 : Int) ≤ 2 ∧ ∃ r b, (e.shift 2 >>= forceAll) = .ok r ∧
      r.site? 0 [.body, .arg] = some b ∧ b.node.kind = .var ∧ b.node.span = some loc := by
  intro loc e
  have he : e.IsPlain := by decide
  have hn : (1 : Int) ≤ 2 := by decide
  obtain ⟨r, hr, hkind, hspan, -⟩ := forceAll_shift_span he hn
  have ha : e.site? 0 [.body, .arg] = some ⟨1, var (some loc) 1⟩ := rfl
  have hvar := hkind [.body, .arg]
  rw [ha] at hvar
  obtain ⟨b, hb, hbkind⟩ := Option.map_eq_some_iff.1 hvar
  exact ⟨he, hn, r, b, hr, hb, hbkind, hspan _ _ b ha hb⟩

/-- In `λ x. 0`, the bound variable has a span. Shifted up by one, it has none: at the position of
the body, the span is not kept. -/
theorem forceAll_shift_span_lost :
    let loc : Span := ⟨⟨"", 1, 0, 5⟩, ⟨"", 1, 0, 6⟩⟩
    let e := lam none "x" (var (some loc) 0)
    e.IsPlain ∧ ∃ r a b, (e.shift 1 >>= forceAll) = .ok r ∧ e.site? 0 [.body] = some a ∧
      r.site? 0 [.body] = some b ∧ a.node.span = some loc ∧ b.node.span = none := by
  intro loc e
  have he : e.IsPlain := by decide
  exact ⟨he, e.raised 1 0, ⟨1, var (some loc) 0⟩, ⟨1, var none 0⟩,
    forceAll_shift_eq (Int.le_refl 1) he, rfl, rfl, rfl, rfl⟩

end Term

end Nameless
