import Nameless.Proofs.CarryingOut
import Nameless.Proofs.Composition

/-!
# Merged and nested substitutions

A term waits below a substitution in one of two ways. The substitution is deferred, which merges it
with one that is pending at the head already; or it is put around the term as it stands, and the
layers are composed when the head is needed. The first way composes from the inside out, the second
one from the outside in.

* **One layer**: deferring a substitution and then exposing the head is forcing the substitution,
  failures included (`Term.Formed.expose_defer`). Composing has the identity as its unit on both
  sides as long as no index is negative, whatever the shifts are.
* **Many layers**: composition is associative, except that deferring the identity over an entry
  leaves no trace and composing with it may leave one (`Subst.compose_padded`). A term is `Padded`
  where the identity is pending over such entries. Padding does not outlast forcing
  (`Term.Padded.forceAll`).
* **So both ways come to the same** (`Term.merged_agrees_nested`), down to the spans.
-/

namespace Nameless

/-! ## One layer -/

namespace Term

/-- Under the identity, forcing brings out the head of a term as it is. -/
theorem Formed.force_identity {e : Term} (he : e.Formed) : e.force .identity = e.expose := by
  cases e with
  | var loc k =>
    have hk : ¬ k + 0 < 0 := by
      have : 0 ≤ k := he
      omega
    rw [force_var, Subst.identity, Subst.lookup, if_neg hk, Int.add_zero]
    rfl
  | pending loc t body =>
    rw [force_pending, he.1.identity_compose]
    rfl
  | lam loc hint body => rw [force, if_pos (by rfl)]; rfl
  | app loc fn arg => rw [force, if_pos (by rfl)]; rfl
  | unknown loc => rw [force, if_pos (by rfl)]; rfl

/-- **Deferring a substitution and then exposing the head is forcing the substitution.** -/
theorem Formed.expose_defer {e : Term} (he : e.Formed) (s : Subst) :
    (e.defer s >>= expose) = e.force s := by
  by_cases hid : s.isIdentity = true
  · rw [Subst.isIdentity_iff.1 hid, defer_identity, he.force_identity]
    rfl
  · cases e with
    | pending loc t body =>
      rw [defer, if_neg hid, force_pending]
      cases s.compose t with
      | _ => rfl
    | _ =>
      rw [defer_of_not_pending rfl, if_neg hid]
      rfl

end Term

/-! ## Composing three layers -/

namespace Subst

/-- Two shifts first are one shift by their sum. -/
theorem afterShift_afterShift {s u : Subst} {m n : Int} (h : s.afterShift m = .ok u) (hm : 0 ≤ m)
    (hn : 0 ≤ n) : u.afterShift n = s.afterShift (m + n) := by
  fun_induction Subst.afterShift s m with
  | case1 a m =>
    cases h
    rw [afterShift, afterShift, Int.add_assoc]
  | case2 head rest =>
    cases h
    rw [Int.zero_add]
  | case3 head rest m h0 hneg => omega
  | case4 head rest m h0 hneg ih =>
    have hsum : m - 1 + n = m + n - 1 := by omega
    rw [ih h (by omega), afterShift, if_neg (by omega), if_neg (by omega), hsum]
  | case5 =>
    cases h
    rw [Int.zero_add]
  | case6 => cases h

/-- Composing with a substitution after a shift is composing with the substitution, and then
shifting first. -/
theorem afterShift_compose {r s rs sn : Subst} {n : Int} (hrs : r.compose s = .ok rs)
    (hs : s.Regular) (hn : 0 ≤ n) (h : s.afterShift n = .ok sn) :
    rs.afterShift n = r.compose sn := by
  fun_induction Subst.afterShift s n generalizing rs with
  | case1 m n =>
    cases h
    exact afterShift_afterShift hrs hs hn
  | case2 head rest =>
    cases h
    rw [hrs]
    exact rs.compose_identity
  | case3 head rest n h0 hneg => omega
  | case4 head rest n h0 hneg ih =>
    obtain ⟨head', -, hrs⟩ := Failure.bind_eq_ok.1 hrs
    obtain ⟨rest', hrest, hrs⟩ := Failure.bind_eq_ok.1 hrs
    cases hrs
    rw [afterShift, if_neg h0, if_neg hneg]
    exact ih hrest hs.2 (by omega) h
  | case5 => exact absurd hs id
  | case6 => cases h

end Subst

/-! ## Padding -/

mutual

/-- The second term is the first one, except that the identity may be pending over entries of what
is pending at its head. Where a pending term was read is not compared. -/
inductive Term.Padded : Term → Term → Prop
  | refl (e : Term) : Term.Padded e e
  | pending {loc loc' : Option Span} {s s' : Subst} {body : Term} (hs : Subst.Padded s s') :
    Term.Padded (.pending loc s body) (.pending loc' s' body)
  | wrapped {loc : Option Span} {e : Term} (he : e.isPending = false) :
    Term.Padded e (.pending loc .identity e)

/-- The second substitution is the first one, except that the identity may be pending over
entries. -/
inductive Subst.Padded : Subst → Subst → Prop
  | refl (s : Subst) : Subst.Padded s s
  | dot {head head' : Term} {rest rest' : Subst} (hhead : Term.Padded head head')
    (hrest : Subst.Padded rest rest') : Subst.Padded (.dot head rest) (.dot head' rest')

end

/-- A pending term is padded in its substitution. -/
theorem Term.Padded.of_pending {loc : Option Span} {t : Subst} {body e' : Term}
    (h : (Term.pending loc t body).Padded e') :
    ∃ loc' t', e' = Term.pending loc' t' body ∧ t.Padded t' := by
  cases h with
  | refl => exact ⟨loc, t, rfl, .refl t⟩
  | pending ht => exact ⟨_, _, rfl, ht⟩
  | wrapped he => cases he

namespace Subst.Padded

variable {s s' rest : Subst} {head : Term}

/-- A padded dot is a dot, with padding in its parts. -/
theorem of_dot (h : (Subst.dot head rest).Padded s') :
    ∃ head' rest', s' = Subst.dot head' rest' ∧ head.Padded head' ∧ rest.Padded rest' := by
  cases h with
  | refl => exact ⟨head, rest, rfl, .refl head, .refl rest⟩
  | dot hhead hrest => exact ⟨_, _, rfl, hhead, hrest⟩

/-- Padding does not make or unmake an identity. -/
theorem isIdentity (h : s.Padded s') : s'.isIdentity = s.isIdentity := by
  cases h with
  | refl => rfl
  | dot hhead hrest => rfl

/-- A shift drops as many entries of a padded substitution. -/
theorem afterShift (h : s.Padded s') {n : Int} {r : Subst} (hr : s.afterShift n = .ok r) :
    ∃ r', s'.afterShift n = .ok r' ∧ r.Padded r' := by
  fun_induction Subst.afterShift s n generalizing s' with
  | case1 m n =>
    cases h with
    | refl => exact ⟨r, hr, .refl r⟩
  | case2 head rest =>
    obtain ⟨head', rest', rfl, -, -⟩ := h.of_dot
    cases hr
    exact ⟨_, rfl, h⟩
  | case3 => cases hr
  | case4 head rest n h0 hneg ih =>
    obtain ⟨head', rest', rfl, -, hrest⟩ := h.of_dot
    rw [Subst.afterShift, if_neg h0, if_neg hneg]
    exact ih hrest hr
  | case5 =>
    cases h with
    | refl => exact ⟨r, hr, .refl r⟩
  | case6 => cases hr

end Subst.Padded

/-- Over a term that is not pending, padded substitutions are deferred alike. -/
theorem Term.Padded.defer_of_not_pending {s s' : Subst} (hs : s.Padded s') {e e' : Term}
    (h : e.Padded e') (he : e.isPending = false) {d : Term} (hd : e.defer s = .ok d) :
    ∃ d', e'.defer s' = .ok d' ∧ d.Padded d' := by
  rw [Term.defer_of_not_pending he] at hd
  cases hd
  cases h with
  | pending => cases he
  | refl =>
    rw [Term.defer_of_not_pending he, hs.isIdentity]
    refine ⟨_, rfl, ?_⟩
    split
    · exact .refl e
    · exact .pending hs
  | wrapped =>
    rw [Term.defer, hs.isIdentity, s'.compose_identity]
    split
    · exact ⟨_, rfl, .wrapped he⟩
    · exact ⟨_, rfl, .pending hs⟩

mutual

/-- **Composing keeps padding apart from the rest.** -/
theorem Subst.Padded.compose {s s' : Subst} (hs : s.Padded s') : (t : Subst) → {t' r : Subst} →
    t.Padded t' → s.compose t = .ok r → ∃ r', s'.compose t' = .ok r' ∧ r.Padded r'
  | .shift n, _, _, ht, hr => by
    cases ht with
    | refl => exact hs.afterShift hr
  | .dot head rest, _, _, ht, hr => by
    obtain ⟨head', rest', rfl, hhead, hrest⟩ := ht.of_dot
    obtain ⟨u, hu, hr⟩ := Failure.bind_eq_ok.1 hr
    obtain ⟨v, hv, hr⟩ := Failure.bind_eq_ok.1 hr
    cases hr
    obtain ⟨u', hu', hupad⟩ := Term.Padded.defer hs head hhead hu
    obtain ⟨v', hv', hvpad⟩ := Subst.Padded.compose hs rest hrest hv
    exact ⟨.dot u' v', Failure.bind_eq_ok.2 ⟨u', hu', Failure.bind_eq_ok.2 ⟨v', hv', rfl⟩⟩,
      .dot hupad hvpad⟩
  | .unknown, _, _, _, hr => by cases hr

@[inherit_doc Subst.Padded.compose]
theorem Term.Padded.defer {s s' : Subst} (hs : s.Padded s') : (e : Term) → {e' d : Term} →
    e.Padded e' → e.defer s = .ok d → ∃ d', e'.defer s' = .ok d' ∧ d.Padded d'
  | .pending loc t body, e', d, he, hd => by
    obtain ⟨loc', t', rfl, ht⟩ := he.of_pending
    rw [Term.defer] at hd ⊢
    rw [hs.isIdentity]
    split at hd
    · rename_i hid
      cases hd
      exact ⟨_, if_pos hid, he⟩
    · rename_i hid
      obtain ⟨merged, hm, hd⟩ := Failure.bind_eq_ok.1 hd
      cases hd
      obtain ⟨merged', hm', hpad⟩ := Subst.Padded.compose hs t ht hm
      rw [if_neg hid, hm']
      exact ⟨_, rfl, .pending hpad⟩
  | .var _ _, _, _, he, hd => he.defer_of_not_pending hs rfl hd
  | .lam _ _ _, _, _, he, hd => he.defer_of_not_pending hs rfl hd
  | .app _ _ _, _, _, he, hd => he.defer_of_not_pending hs rfl hd
  | .unknown _, _, _, he, hd => he.defer_of_not_pending hs rfl hd

end

/-! ## Associativity -/

/-- Over a pending term of known shape, deferring composes, also where it defers the identity. -/
theorem Subst.Formed.defer_pending {t : Subst} (ht : t.Formed) (s : Subst) (loc : Option Span)
    (body : Term) : (Term.pending loc t body).defer s =
      s.compose t >>= fun merged => .ok (.pending loc merged body) := by
  rw [Term.defer]
  split
  · rename_i hid
    rw [Subst.isIdentity_iff.1 hid, ht.identity_compose]
    rfl
  · rfl

/-- Deferring a composition over a term that is not pending, against deferring one substitution
after the other. -/
theorem Term.defer_padded_of_not_pending {r s rs : Subst} (hs : s.Regular)
    (hrs : r.compose s = .ok rs) {e : Term} (he : e.isPending = false) {m left right : Term}
    (hm : e.defer s = .ok m) (hleft : e.defer rs = .ok left) (hright : m.defer r = .ok right) :
    left.Padded right := by
  rw [Term.defer_of_not_pending he] at hm hleft
  cases hm
  cases hleft
  by_cases hid : s.isIdentity = true
  · rw [Subst.isIdentity_iff.1 hid, Subst.compose_identity] at hrs
    cases hrs
    rw [if_pos hid, Term.defer_of_not_pending he] at hright
    cases hright
    exact .refl _
  · rw [if_neg hid, hs.formed.defer_pending, hrs] at hright
    cases hright
    split
    · rename_i hid'
      rw [Subst.isIdentity_iff.1 hid']
      exact .wrapped he
    · exact .refl _

mutual

/-- **Composition is associative up to padding.** -/
theorem Subst.compose_padded {r s rs : Subst} (hs : s.Regular) (hrs : r.compose s = .ok rs) :
    (t : Subst) → t.Regular → {st left right : Subst} → s.compose t = .ok st →
    rs.compose t = .ok left → r.compose st = .ok right → left.Padded right
  | .shift n, ht, st, left, right, hst, hleft, hright => by
    have hn : 0 ≤ n := ht
    have heq : rs.afterShift n = r.compose st := Subst.afterShift_compose hrs hs hn hst
    rw [Subst.compose, heq, hright] at hleft
    cases hleft
    exact .refl _
  | .dot head rest, ht, st, left, right, hst, hleft, hright => by
    obtain ⟨m, hm, hst⟩ := Failure.bind_eq_ok.1 hst
    obtain ⟨st, hst', hst⟩ := Failure.bind_eq_ok.1 hst
    cases hst
    obtain ⟨a, ha, hleft⟩ := Failure.bind_eq_ok.1 hleft
    obtain ⟨left, hleft', hleft⟩ := Failure.bind_eq_ok.1 hleft
    cases hleft
    obtain ⟨b, hb, hright⟩ := Failure.bind_eq_ok.1 hright
    obtain ⟨right, hright', hright⟩ := Failure.bind_eq_ok.1 hright
    cases hright
    exact .dot (Term.defer_padded hs hrs head ht.1 hm ha hb)
      (Subst.compose_padded hs hrs rest ht.2 hst' hleft' hright')
  | .unknown, ht, _, _, _, _, _, _ => absurd ht id

@[inherit_doc Subst.compose_padded]
theorem Term.defer_padded {r s rs : Subst} (hs : s.Regular) (hrs : r.compose s = .ok rs) :
    (e : Term) → e.Regular → {m left right : Term} → e.defer s = .ok m → e.defer rs = .ok left →
    m.defer r = .ok right → left.Padded right
  | .pending loc t body, he, m, left, right, hm, hleft, hright => by
    obtain ⟨st, hst, hstreg, -⟩ := Subst.compose_regular hs t he.1
    rw [he.1.formed.defer_pending, hst] at hm
    cases hm
    rw [he.1.formed.defer_pending] at hleft
    obtain ⟨u, hu, hleft⟩ := Failure.bind_eq_ok.1 hleft
    cases hleft
    rw [hstreg.formed.defer_pending] at hright
    obtain ⟨v, hv, hright⟩ := Failure.bind_eq_ok.1 hright
    cases hright
    exact .pending (Subst.compose_padded hs hrs t he.1 hst hu hv)
  | .var _ _, _, _, _, _, hm, hleft, hright =>
    Term.defer_padded_of_not_pending hs hrs rfl hm hleft hright
  | .lam _ _ _, _, _, _, _, hm, hleft, hright =>
    Term.defer_padded_of_not_pending hs hrs rfl hm hleft hright
  | .app _ _ _, _, _, _, _, hm, hleft, hright =>
    Term.defer_padded_of_not_pending hs hrs rfl hm hleft hright
  | .unknown _, he, _, _, _, _, _, _ => absurd he id

end

/-! ## Forcing -/

/-- What regular substitutions compose to is regular. -/
theorem Subst.Regular.of_compose {s t r : Subst} (hs : s.Regular) (ht : t.Regular)
    (h : s.compose t = .ok r) : r.Regular := by
  obtain ⟨r', hr', hreg, -⟩ := Subst.compose_regular hs t ht
  rw [h] at hr'
  cases hr'
  exact hreg

/-- What a regular substitution has for an index is regular. -/
theorem Subst.Regular.of_lookup {s : Subst} (hs : s.Regular) {loc : Option Span} {i k : Int}
    (hk : 0 ≤ k) {e : Term} (h : s.lookup loc i k = .ok e) : e.Regular := by
  obtain ⟨e', he', hreg, -⟩ := Subst.lookup_regular hs loc i hk
  rw [h] at he'
  cases he'
  exact hreg

/-- Padded substitutions find padded terms. -/
theorem Subst.Padded.lookup {s s' : Subst} (hs : s.Padded s') {loc : Option Span} {i k : Int}
    {e : Term} (h : s.lookup loc i k = .ok e) :
    ∃ e', s'.lookup loc i k = .ok e' ∧ e.Padded e' := by
  fun_induction Subst.lookup loc i s k generalizing s' with
  | case1 => cases h
  | case2 n k hk =>
    cases hs with
    | refl =>
      rw [Subst.lookup, if_neg hk]
      exact ⟨e, h, .refl e⟩
  | case3 head rest =>
    obtain ⟨head', rest', rfl, hhead, -⟩ := hs.of_dot
    cases h
    exact ⟨head', rfl, hhead⟩
  | case4 head rest k hk ih =>
    obtain ⟨head', rest', rfl, -, hrest⟩ := hs.of_dot
    rw [Subst.lookup, if_neg hk]
    exact ih hrest h
  | case5 => cases h

/-- Padded substitutions are lifted alike. -/
theorem Subst.Padded.lifted {s s' t : Subst} (hs : s.Padded s') (h : s.lifted = .ok t) :
    ∃ t', s'.lifted = .ok t' ∧ t.Padded t' := by
  obtain ⟨rest, hrest, h⟩ := Failure.bind_eq_ok.1 h
  cases h
  obtain ⟨rest', hrest', hpad⟩ := Subst.Padded.compose (.refl (.shift 1)) s hs hrest
  exact ⟨_, Failure.bind_eq_ok.2 ⟨rest', hrest', rfl⟩, .dot (.refl _) hpad⟩

namespace Term

/-- Two heads in the open that differ in the padding of their children only. -/
inductive Aligned : Term → Term → Prop
  | var (loc : Option Span) (k : Int) : Aligned (var loc k) (var loc k)
  | lam {loc : Option Span} {hint : String} {body body' : Term} (hbody : body.Padded body') :
    Aligned (lam loc hint body) (lam loc hint body')
  | app {loc : Option Span} {fn fn' arg arg' : Term} (hfn : fn.Padded fn')
    (harg : arg.Padded arg') : Aligned (app loc fn arg) (app loc fn' arg')

/-- A head in the open is aligned with itself. -/
theorem Regular.aligned {e : Term} (he : e.Regular) (hp : e.isPending = false) : e.Aligned e := by
  cases e with
  | var loc k => exact .var loc k
  | lam loc hint body => exact .lam (.refl body)
  | app loc fn arg => exact .app (.refl fn) (.refl arg)
  | pending loc s body => cases hp
  | unknown loc => exact absurd he id

/-- Forcing passes by the identity that is pending over a term. -/
theorem Padded.force_eq {e e' : Term} (h : e.Padded e') (he : e.isPending = false) (s : Subst) :
    e'.force s = e.force s := by
  cases h with
  | refl => rfl
  | pending => cases he
  | wrapped =>
    rw [force_pending, s.compose_identity]
    rfl

/-- **Forcing brings out aligned heads.** -/
theorem Padded.force {s s' : Subst} {e e' r : Term} (hs : s.Regular) (he : e.Regular)
    (hpad : s.Padded s') (hepad : e.Padded e') (h : e.force s = .ok r) :
    ∃ r', e'.force s' = .ok r' ∧ r.Aligned r' := by
  fun_induction Term.force s e generalizing s' e' with
  | case1 => cases h
  | case2 s loc t body merged hm ih =>
    obtain ⟨loc', t', rfl, ht⟩ := hepad.of_pending
    obtain ⟨merged', hm', hmpad⟩ := hpad.compose t ht hm
    rw [force_pending, hm']
    exact ih (hs.of_compose he.1 hm) he.2 hmpad (.refl body) h
  | case3 => cases h
  | case4 s loc k found hl hp ih =>
    obtain ⟨found', hl', hfpad⟩ := hpad.lookup hl
    have hfreg : found.Regular := hs.of_lookup he hl
    rw [hepad.force_eq rfl, force_var, hl']
    -- what is pending in one entry is pending in the other
    cases found with
    | pending loc t body =>
      obtain ⟨loc', t', rfl, ht⟩ := hfpad.of_pending
      exact ih Subst.regular_identity hfreg (.refl _) (.pending ht) h
    | _ => cases hp
  | case5 s loc k found hl hp =>
    cases h
    obtain ⟨found', hl', hfpad⟩ := hpad.lookup hl
    have hfreg : r.Regular := hs.of_lookup he hl
    have hpf : r.isPending = false := by simpa using hp
    rw [hepad.force_eq rfl, force_var, hl']
    refine ⟨r, ?_, hfreg.aligned hpf⟩
    cases hfpad with
    | refl => exact if_neg hp
    | pending => cases hpf
    | wrapped =>
      -- the padding is forced, which changes nothing
      show (Term.pending _ .identity r).force .identity = .ok r
      rw [force_pending, Subst.compose_identity]
      show r.force .identity = .ok r
      rw [hfreg.formed.force_identity]
      cases r with
      | pending => cases hpf
      | _ => rfl
  | case6 s loc hint body hid =>
    cases h
    rw [hepad.force_eq rfl, Term.force, if_pos (hpad.isIdentity ▸ hid)]
    exact ⟨_, rfl, .lam (.refl body)⟩
  | case7 s loc hint body hid =>
    obtain ⟨below, hbelow, h⟩ := Failure.bind_eq_ok.1 h
    obtain ⟨inner, hinner, h⟩ := Failure.bind_eq_ok.1 h
    cases h
    obtain ⟨below', hbelow', hbpad⟩ := hpad.lifted hbelow
    obtain ⟨inner', hinner', hipad⟩ := Padded.defer hbpad body (.refl body) hinner
    rw [hepad.force_eq rfl, Term.force, if_neg (hpad.isIdentity ▸ hid)]
    exact ⟨_, Failure.bind_eq_ok.2 ⟨below', hbelow', Failure.bind_eq_ok.2 ⟨inner', hinner', rfl⟩⟩,
      .lam hipad⟩
  | case8 s loc fn arg hid =>
    cases h
    rw [hepad.force_eq rfl, Term.force, if_pos (hpad.isIdentity ▸ hid)]
    exact ⟨_, rfl, .app (.refl fn) (.refl arg)⟩
  | case9 s loc fn arg hid =>
    obtain ⟨first, hfirst, h⟩ := Failure.bind_eq_ok.1 h
    obtain ⟨second, hsecond, h⟩ := Failure.bind_eq_ok.1 h
    cases h
    obtain ⟨first', hfirst', hfpad⟩ := Padded.defer hpad fn (.refl fn) hfirst
    obtain ⟨second', hsecond', hspad⟩ := Padded.defer hpad arg (.refl arg) hsecond
    rw [hepad.force_eq rfl, Term.force, if_neg (hpad.isIdentity ▸ hid)]
    exact ⟨_, Failure.bind_eq_ok.2 ⟨first', hfirst', Failure.bind_eq_ok.2 ⟨second', hsecond', rfl⟩⟩,
      .app hfpad hspad⟩
  | case10 => exact absurd he id
  | case11 => exact absurd he id

/-- **Exposing brings out aligned heads.** -/
theorem Padded.expose {e e' r : Term} (he : e.Regular) (hpad : e.Padded e')
    (h : e.expose = .ok r) : ∃ r', e'.expose = .ok r' ∧ r.Aligned r' := by
  cases hpad with
  | refl => exact ⟨r, h, (regular_of_expose he h).1.aligned (isPending_expose h)⟩
  | pending hs => exact Padded.force he.1 he.2 hs (.refl _) h
  | wrapped hp =>
    refine ⟨r, ?_, (regular_of_expose he h).1.aligned (isPending_expose h)⟩
    show e.force .identity = .ok r
    rw [he.formed.force_identity, h]

/-- **Padded terms come to the same**, with all spans. -/
theorem Padded.forceAll {e e' : Term} (he : e.Regular) (hpad : e.Padded e') :
    e'.forceAll = e.forceAll := by
  fun_induction Term.forceAll e generalizing e' with
  | case1 e x hx =>
    obtain ⟨r, hr, -⟩ := expose_regular he
    rw [hr] at hx
    cases hx
  | case2 e loc hint body hexp ih =>
    obtain ⟨r', hr', halign⟩ := hpad.expose he hexp
    cases halign with
    | lam hbody =>
      rw [forceAll_eq e', hr']
      show (do let body ← Term.forceAll _; return lam loc hint body : Except Failure Term) = _
      rw [ih (regular_of_expose he hexp).1 hbody]
  | case3 e loc fn arg hexp ihf iha =>
    obtain ⟨r', hr', halign⟩ := hpad.expose he hexp
    have hreg := (regular_of_expose he hexp).1
    cases halign with
    | app hfn harg =>
      rw [forceAll_eq e', hr']
      show (do let fn ← Term.forceAll _; let arg ← Term.forceAll _; return app loc fn arg :
        Except Failure Term) = _
      rw [ihf hreg.1 hfn, iha hreg.2 harg]
  | case4 e r hlam happ hexp =>
    obtain ⟨r', hr', halign⟩ := hpad.expose he hexp
    cases halign with
    | var =>
      rw [forceAll_eq e', hr']
      rfl
    | lam => exact absurd rfl (hlam _ _ _)
    | app => exact absurd rfl (happ _ _ _)

/-! ## Layers -/

/-- A term below layers of pending substitutions, outermost first, one around the other. -/
def nested : List (Option Span × Subst) → Term → Term
  | [], e => e
  | (loc, s) :: layers, e => pending loc s (nested layers e)

/-- A term with the same substitutions, outermost first, deferred one after the other. -/
def merged : List Subst → Term → Except Failure Term
  | [], e => .ok e
  | s :: layers, e => do
    let d ← merged layers e
    d.defer s

/-- Terms with the same head in the open come to the same. -/
theorem forceAll_congr {a b : Term} (h : a.expose = b.expose) : a.forceAll = b.forceAll := by
  rw [forceAll_eq, forceAll_eq b, h]

/-- Where known shapes are below, the identity may be left out. -/
theorem Formed.forceAll_pending_identity {e : Term} (he : e.Formed) (loc : Option Span) :
    (pending loc .identity e).forceAll = e.forceAll :=
  forceAll_congr he.force_identity

/-- Below a substitution, a deferred one may be composed with it. -/
theorem forceAll_pending_defer {u s us : Subst} (hu : u.Regular) (hs : s.Regular)
    (hus : u.compose s = .ok us) {e d : Term} (he : e.Regular) (hd : e.defer s = .ok d)
    (loc loc' : Option Span) : (pending loc us e).forceAll = (pending loc' u d).forceAll := by
  by_cases hp : e.isPending = true
  · cases e with
    | pending loc₀ t body =>
      obtain ⟨st, hst, hstreg, -⟩ := Subst.compose_regular hs t he.1
      obtain ⟨left, hleft, hleftreg, -⟩ :=
        Subst.compose_regular (hu.of_compose hs hus) t he.1
      obtain ⟨right, hright, -⟩ := Subst.compose_regular hu st hstreg
      rw [he.1.formed.defer_pending, hst] at hd
      cases hd
      have hpad : (pending loc left body).Padded (pending loc right body) :=
        .pending (Subst.compose_padded hs hus t he.1 hst hleft hright)
      have hbody : (pending loc left body).Regular := ⟨hleftreg, he.2⟩
      calc (pending loc us (pending loc₀ t body)).forceAll
          = (pending loc left body).forceAll := by
            refine forceAll_congr ?_
            show (pending loc₀ t body).force us = body.force left
            rw [force_pending, hleft]
            rfl
        _ = (pending loc right body).forceAll := (hpad.forceAll hbody).symm
        _ = (pending loc' u (pending loc₀ st body)).forceAll := by
            refine forceAll_congr ?_
            show body.force right = (pending loc₀ st body).force u
            rw [force_pending, hright]
            rfl
    | _ => cases hp
  · refine forceAll_congr ?_
    show e.force us = d.force u
    rw [defer_of_not_pending (Bool.eq_false_iff.2 hp)] at hd
    cases hd
    split
    · rename_i hid
      rw [Subst.isIdentity_iff.1 hid, u.compose_identity] at hus
      cases hus
      rfl
    · rw [force_pending, hus]
      rfl

/-- Regular layers over a regular term are regular. -/
theorem nested_regular {layers : List (Option Span × Subst)}
    (hlayers : ∀ layer ∈ layers, layer.2.Regular) {e : Term} (he : e.Regular) :
    (nested layers e).Regular := by
  induction layers with
  | nil => exact he
  | cons layer layers ih =>
    exact ⟨hlayers layer List.mem_cons_self,
      ih fun other hmem => hlayers other (List.mem_cons_of_mem layer hmem)⟩

/-- **Below any substitution, nested layers come to what the merged ones come to.** The induction is
over the layers from the outside in; the substitution outside takes up one layer after the other. -/
theorem forceAll_pending_nested {layers : List (Option Span × Subst)}
    (hlayers : ∀ layer ∈ layers, layer.2.Regular) {e : Term} (he : e.Regular) :
    ∃ d, merged (layers.map Prod.snd) e = .ok d ∧ d.Regular ∧
      ∀ u : Subst, u.Regular → ∀ loc loc' : Option Span,
        (pending loc u (nested layers e)).forceAll = (pending loc' u d).forceAll := by
  induction layers with
  | nil => exact ⟨e, rfl, he, fun u _ loc loc' => forceAll_congr rfl⟩
  | cons layer layers ih =>
    obtain ⟨loc₀, s⟩ := layer
    have hs : s.Regular := hlayers _ List.mem_cons_self
    obtain ⟨d, hd, hdreg, hbelow⟩ :=
      ih fun other hmem => hlayers other (List.mem_cons_of_mem _ hmem)
    obtain ⟨d', hd', hdreg', -⟩ := defer_regular hs d hdreg
    refine ⟨d', Failure.bind_eq_ok.2 ⟨d, hd, hd'⟩, hdreg', ?_⟩
    intro u hu loc loc'
    obtain ⟨us, hus, husreg, -⟩ := Subst.compose_regular hu s hs
    calc (pending loc u (pending loc₀ s (nested layers e))).forceAll
        = (pending loc us (nested layers e)).forceAll := by
          refine forceAll_congr ?_
          show (pending loc₀ s (nested layers e)).force u = (nested layers e).force us
          rw [force_pending, hus]
          rfl
      _ = (pending loc us d).forceAll := hbelow us husreg loc loc
      _ = (pending loc' u d').forceAll := forceAll_pending_defer hu hs hus hdreg hd' loc loc'

/-- **Merged substitutions agree with nested ones.** Let no index in `e` be negative and no
substitution in it of unknown shape. Deferring any substitution over `e` and then exposing the head
has the outcome of forcing the substitution: the same head with all its spans, or the same failure.
If the substitution is the identity and nothing is pending at the head, that is `e` as it is. And
regular layers of substitutions, however many, over a regular term come to the same with all spans,
whether they are nested in one another as they stand or are deferred one after the other. -/
theorem merged_agrees_nested {e : Term} (he : e.Formed) (s : Subst) :
    (e.defer s >>= expose) = e.force s ∧
    (s.isIdentity = true → e.isPending = false → e.force s = .ok e) ∧
    ∀ (layers : List (Option Span × Subst)) (body : Term),
      (∀ layer ∈ layers, layer.2.Regular) → body.Regular →
      ∃ d r, merged (layers.map Prod.snd) body = .ok d ∧ d.forceAll = .ok r ∧
        (nested layers body).forceAll = .ok r := by
  refine ⟨he.expose_defer s, ?_, ?_⟩
  · intro hid hp
    rw [Subst.isIdentity_iff.1 hid, he.force_identity]
    cases e with
    | pending => cases hp
    | _ => rfl
  · intro layers body hlayers hbody
    obtain ⟨d, hd, hdreg, hsame⟩ := forceAll_pending_nested hlayers hbody
    obtain ⟨r, hr, -⟩ := forceAll_regular hdreg
    have hnested := (nested_regular hlayers hbody).formed.forceAll_pending_identity none
    have hmerged := hdreg.formed.forceAll_pending_identity none
    refine ⟨d, r, hd, hr, ?_⟩
    rw [← hnested, hsame _ Subst.regular_identity none none, hmerged, hr]

/-- A shift down that is pending cannot be composed with a substitution around it, and both ways
report that. Of three layers around a variable, the innermost one puts in a function, the next one
shifts it up, and the outermost one undoes the shift: nested, the identity stays around the function
until it is forced. -/
theorem merged_agrees_nested_layers :
    let e := pending none (.shift (-1)) (unknown none)
    let s := Subst.dot (var none 0) .identity
    let f := lam (some ⟨⟨"", 1, 0, 2⟩, ⟨"", 1, 0, 6⟩⟩) "x" (var none 0)
    let layers : List (Option Span × Subst) :=
      [(none, .dot (var none 7) .identity), (none, .shift 1), (none, .dot f .identity)]
    e.Formed ∧ (e.defer s >>= expose) = .error (.fault (.incomposable s (.shift (-1)))) ∧
      e.force s = .error (.fault (.incomposable s (.shift (-1)))) ∧
      (∀ layer ∈ layers, layer.2.Regular) ∧ (var none 0).Regular ∧
      ∃ d r, merged (layers.map Prod.snd) (var none 0) = .ok d ∧ d.forceAll = .ok r ∧
        (nested layers (var none 0)).forceAll = .ok r := by
  intro e s f layers
  have he : e.Formed := ⟨trivial, trivial⟩
  have hlayers : ∀ layer ∈ layers, layer.2.Regular := by
    simp only [layers, f]
    decide
  have hbody : (var none 0).Regular := by decide
  have hforce : e.force s = .error (.fault (.incomposable s (.shift (-1)))) := by
    have hshort (i : Int) (hi : i.natAbs < 10) : Decimal.Writable i :=
      Decimal.writable_of_natAbs_lt hi
    have hwritable : (Fault.incomposable s (.shift (-1))).writable = true := by
      simp [s, Fault.writable, Subst.writable, Term.writable, Span.writable?, Subst.identity,
        hshort]
    have hcompose : s.compose (.shift (-1)) = .error (.fault (.incomposable s (.shift (-1)))) :=
      congrArg Except.error (if_pos hwritable)
    rw [force_pending, hcompose]
    rfl
  obtain ⟨hone, -, hmany⟩ := merged_agrees_nested he s
  exact ⟨he, hone.trans hforce, hforce, hlayers, hbody, hmany layers _ hlayers hbody⟩

end Term

end Nameless
