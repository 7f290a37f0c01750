import Nameless.Proofs.Forcing

/-!
# Composition is one substitution after the other

Composing two substitutions and carrying the result out is the same as carrying out the inner one
completely and then the outer one. The two ways leave different pending nodes behind, so they are
compared by what they come to (`Term.Converge`), and two regular terms come to the same as soon as
they mean the same (`Term.Regular.converge`).

* **What is carried out keeps its meaning** (`Term.forceAll_meaning`), since spans have none
  (`Term.meaning_bare`). So a result can be put below another substitution.
* **The identity is neutral on the nose** (`Subst.Formed.identity_compose`,
  `Subst.compose_identity`): not only the meaning stays, but every node.
* **Composition is sequential, and a monoid** (`Subst.compose_sequential_monoid`).
-/

namespace Nameless

/-! ## Spans have no meaning -/

mutual

/-- Taking the spans away changes no index. -/
theorem Term.regular_bare : (e : Term) → (e.bare.Regular ↔ e.Regular)
  | .var _ _ => Iff.rfl
  | .lam _ _ body => body.regular_bare
  | .app _ fn arg => and_congr fn.regular_bare arg.regular_bare
  | .pending _ s body => and_congr s.regular_bare body.regular_bare
  | .unknown _ => Iff.rfl

@[inherit_doc Term.regular_bare]
theorem Subst.regular_bare : (s : Subst) → (s.bare.Regular ↔ s.Regular)
  | .shift _ => Iff.rfl
  | .dot head rest => and_congr head.regular_bare rest.regular_bare
  | .unknown => Iff.rfl

end

mutual

/-- Taking the spans away changes no meaning. -/
theorem Term.meaning_bare : (e : Term) → e.bare.meaning = e.meaning
  | .var _ _ => rfl
  | .lam _ _ body => by rw [Term.bare, Term.meaning, Term.meaning, body.meaning_bare]
  | .app _ fn arg => by
    rw [Term.bare, Term.meaning, Term.meaning, fn.meaning_bare, arg.meaning_bare]
  | .pending _ s body => by
    rw [Term.bare, Term.meaning, Term.meaning, s.meaning_bare, body.meaning_bare]
  | .unknown _ => rfl

@[inherit_doc Term.meaning_bare]
theorem Subst.meaning_bare : (s : Subst) → s.bare.meaning = s.meaning
  | .shift _ => rfl
  | .dot head rest => by
    rw [Subst.bare, Subst.meaning, Subst.meaning, head.meaning_bare, rest.meaning_bare]
  | .unknown => rfl

end

namespace Plain

/-- A plain term is regular as a term. -/
theorem regular_toTerm (e : Plain) : e.toTerm.Regular := by
  induction e with
  | var k => exact Int.natCast_nonneg k
  | lam hint body ih => exact ih
  | app fn arg ihf iha => exact ⟨ihf, iha⟩

/-- A plain term means itself. -/
theorem meaning_toTerm (e : Plain) : e.toTerm.meaning = e := by
  induction e with
  | var k => rfl
  | lam hint body ih => rw [toTerm, Term.meaning, ih]
  | app fn arg ihf iha => rw [toTerm, Term.meaning, ihf, iha]

end Plain

/-- What is a plain term up to spans is regular. -/
theorem Term.Same.regular {r : Term} {q : Plain} (h : r.Same q.toTerm) : r.Regular := by
  rw [← r.regular_bare, show r.bare = q.toTerm.bare from h, Plain.bare_toTerm]
  exact q.regular_toTerm

/-- What is a plain term up to spans means that term. -/
theorem Term.Same.meaning_eq {r : Term} {q : Plain} (h : r.Same q.toTerm) : r.meaning = q := by
  rw [← r.meaning_bare, show r.bare = q.toTerm.bare from h, Plain.bare_toTerm]
  exact q.meaning_toTerm

/-- **What is carried out keeps its meaning**, and is regular again. -/
theorem Term.forceAll_meaning {e : Term} (he : e.Regular) :
    ∃ r, e.forceAll = .ok r ∧ r.Regular ∧ r.meaning = e.meaning := by
  obtain ⟨r, hr, hsame⟩ := Term.forceAll_regular he
  exact ⟨r, hr, hsame.regular, hsame.meaning_eq⟩

/-- Carrying everything out succeeds on both terms and gives the same, up to where it was read. -/
def Term.Converge (a b : Term) : Prop :=
  ∃ r r', a.forceAll = .ok r ∧ b.forceAll = .ok r' ∧ r.Same r'

/-- Regular terms that mean the same come to the same. -/
theorem Term.Regular.converge {a b : Term} (ha : a.Regular) (hb : b.Regular)
    (h : a.meaning = b.meaning) : a.Converge b := by
  obtain ⟨r, hr, hsame⟩ := Term.forceAll_regular ha
  obtain ⟨r', hr', hsame'⟩ := Term.forceAll_regular hb
  refine ⟨r, r', hr, hr', ?_⟩
  rw [← h] at hsame'
  exact hsame.trans hsame'.symm

/-! ## The identity -/

/-- Shifting by zero first changes nothing. -/
theorem Subst.compose_identity (s : Subst) : s.compose .identity = .ok s := by
  cases s with
  | shift n => simp [Subst.compose, Subst.identity, Subst.afterShift]
  | dot head rest => rfl
  | unknown => rfl

mutual

/-- Every index of a term is at least zero, and every substitution in it has a known shape. Shift
amounts may be negative, and there may be nodes of no known shape. -/
def Term.Formed : Term → Prop
  | .var _ index => 0 ≤ index
  | .lam _ _ body => body.Formed
  | .app _ fn arg => fn.Formed ∧ arg.Formed
  | .pending _ s body => s.Formed ∧ body.Formed
  | .unknown _ => True

@[inherit_doc Term.Formed]
def Subst.Formed : Subst → Prop
  | .shift _ => True
  | .dot head rest => head.Formed ∧ rest.Formed
  | .unknown => False

end

mutual

/-- Regular terms are of known shape throughout. -/
theorem Term.Regular.formed : {e : Term} → e.Regular → e.Formed
  | .var _ _, he => he
  | .lam _ _ body, he => Term.Regular.formed (e := body) he
  | .app _ _ _, he => ⟨Term.Regular.formed he.1, Term.Regular.formed he.2⟩
  | .pending _ _ _, he => ⟨Subst.Regular.formed he.1, Term.Regular.formed he.2⟩
  | .unknown _, he => absurd he id

/-- Regular substitutions are of known shape throughout. -/
theorem Subst.Regular.formed : {s : Subst} → s.Regular → s.Formed
  | .shift _, _ => trivial
  | .dot _ _, hs => ⟨Term.Regular.formed hs.1, Subst.Regular.formed hs.2⟩
  | .unknown, hs => absurd hs id

end

/-- The identity after a substitution of known shape leaves it as it is, entry by entry. -/
theorem Subst.Formed.identity_compose {s : Subst} (hs : s.Formed) :
    Subst.compose .identity s = .ok s := by
  cases s with
  | shift n => exact Subst.identity_compose_shift n
  | dot head rest => exact Subst.identity_compose_dot head (Subst.Formed.identity_compose hs.2)
  | unknown => exact absurd hs id

@[inherit_doc Subst.Formed.identity_compose]
theorem Subst.Regular.identity_compose {s : Subst} (hs : s.Regular) :
    Subst.compose .identity s = .ok s :=
  hs.formed.identity_compose

/-! ## Composition -/

/-- Below a composition, a term comes to what the outer substitution makes of what the inner one
came to. -/
theorem Subst.Regular.converge_compose {s t st : Subst} (hs : s.Regular) (ht : t.Regular)
    (hst : s.compose t = .ok st) {e : Term} (he : e.Regular) (loc loc' loc'' : Option Span) :
    ∃ first, (Term.pending loc t e).forceAll = .ok first ∧
      (Term.pending loc' st e).Converge (.pending loc'' s first) := by
  obtain ⟨st', hst', hreg, hmean⟩ := Subst.compose_regular hs t ht
  rw [hst'] at hst
  cases hst
  have hinner : (Term.pending loc t e).Regular := ⟨ht, he⟩
  obtain ⟨first, hfirst, hfirstReg, hfirstMean⟩ := Term.forceAll_meaning hinner
  refine ⟨first, hfirst, Term.Regular.converge ⟨hreg, he⟩ ⟨hs, hfirstReg⟩ ?_⟩
  calc (Term.pending loc' st e).meaning
      = e.meaning.subst st.meaning := rfl
    _ = (e.meaning.subst t.meaning).subst s.meaning := by rw [hmean, Plain.subst_subst]
    _ = first.meaning.subst s.meaning := by rw [hfirstMean, Term.meaning]
    _ = (Term.pending loc'' s first).meaning := rfl

/-- The two ways to compose three regular substitutions succeed and mean the same assignment. -/
theorem Subst.Regular.compose_assoc {r s t : Subst} (hr : r.Regular) (hs : s.Regular)
    (ht : t.Regular) :
    ∃ rs st left right, r.compose s = .ok rs ∧ s.compose t = .ok st ∧
      rs.compose t = .ok left ∧ r.compose st = .ok right ∧
      left.Regular ∧ right.Regular ∧ left.meaning = right.meaning := by
  obtain ⟨rs, hrs, hrsReg, hrsMean⟩ := Subst.compose_regular hr s hs
  obtain ⟨st, hst, hstReg, hstMean⟩ := Subst.compose_regular hs t ht
  obtain ⟨left, hleft, hleftReg, hleftMean⟩ := Subst.compose_regular hrsReg t ht
  obtain ⟨right, hright, hrightReg, hrightMean⟩ := Subst.compose_regular hr st hstReg
  refine ⟨rs, st, left, right, hrs, hst, hleft, hright, hleftReg, hrightReg, ?_⟩
  funext k
  calc left.meaning k
      = (t.meaning k).subst rs.meaning := congrFun hleftMean k
    _ = ((t.meaning k).subst s.meaning).subst r.meaning := by rw [hrsMean, Plain.subst_subst]
    _ = (st.meaning k).subst r.meaning := by rw [hstMean]
    _ = right.meaning k := (congrFun hrightMean k).symm

/-- **Composition is sequential application, and a monoid.** Let `r`, `s` and `t` be regular.
Composing `s` after `t` succeeds with a regular substitution, which on every regular term comes to
what `s` makes of what `t` came to; the identity on either side gives `s` back as it is; and the two
ways to compose all three come to the same on every regular term. -/
theorem Subst.compose_sequential_monoid {r s t : Subst} (hr : r.Regular) (hs : s.Regular)
    (ht : t.Regular) :
    (∃ st, s.compose t = .ok st ∧ st.Regular ∧
      ∀ (e : Term) (loc loc' loc'' : Option Span), e.Regular →
        ∃ first, (Term.pending loc t e).forceAll = .ok first ∧
          (Term.pending loc' st e).Converge (.pending loc'' s first)) ∧
    Subst.compose .identity s = .ok s ∧ s.compose .identity = .ok s ∧
    ∃ rs st left right, r.compose s = .ok rs ∧ s.compose t = .ok st ∧
      rs.compose t = .ok left ∧ r.compose st = .ok right ∧
      ∀ (e : Term) (loc loc' : Option Span), e.Regular →
        (Term.pending loc left e).Converge (.pending loc' right e) := by
  refine ⟨?_, hs.identity_compose, s.compose_identity, ?_⟩
  · obtain ⟨st, hst, hreg, -⟩ := Subst.compose_regular hs t ht
    refine ⟨st, hst, hreg, ?_⟩
    intro e loc loc' loc'' he
    exact hs.converge_compose ht hst he loc loc' loc''
  · obtain ⟨rs, st, left, right, hrs, hst, hleft, hright, hleftReg, hrightReg, hmean⟩ :=
      hr.compose_assoc hs ht
    refine ⟨rs, st, left, right, hrs, hst, hleft, hright, ?_⟩
    intro e loc loc' he
    refine Term.Regular.converge ⟨hleftReg, he⟩ ⟨hrightReg, he⟩ ?_
    rw [Term.meaning, Term.meaning, hmean]

/-- The inner substitution has a pending entry, itself over an abstraction, and the term has it go
below a binder: `(λ z. 1 2)` under `t` and then `s`. -/
theorem Subst.compose_sequential_pending_entry :
    let r := Subst.shift 2
    let s := Subst.dot (.lam none "x" (.app none (.var none 0) (.var none 1))) (.shift 1)
    let t := Subst.dot (.pending none (.shift 1) (.lam none "y" (.var none 1)))
      (.dot (.var none 0) (.shift 3))
    let e := Term.lam none "z" (.app none (.var none 1) (.var none 2))
    r.Regular ∧ s.Regular ∧ t.Regular ∧ e.Regular ∧
      ∃ st, s.compose t = .ok st ∧ ∃ first, (Term.pending none t e).forceAll = .ok first ∧
        (Term.pending none st e).Converge (.pending none s first) := by
  intro r s t e
  have hr : r.Regular := by decide
  have hs : s.Regular := by decide
  have ht : t.Regular := by decide
  have he : e.Regular := by decide
  obtain ⟨st, hst, -, hseq⟩ := (Subst.compose_sequential_monoid hr hs ht).1
  exact ⟨hr, hs, ht, he, st, hst, hseq e none none none he⟩

end Nameless
