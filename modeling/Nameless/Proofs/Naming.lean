import Nameless.Proofs.FreshName
import Nameless.Proofs.Occurrence
import Nameless.Proofs.Trace

/-!
# How the sketch of a term names its variables

The names in scope are kept **clear** of each other: no two that are used are the same, and one
that is not used is the placeholder (`Clear`). A used name is a hint or a hint with a number at its
end, so whatever is good of all hints, and stays so under counting, is good of all used names.

* **A binder list keeps the scope clear** (`Printer.nameBinders_clear`): each step adds one binder,
  which is apart from the scope and from the binders further inside.
* **A sketch shows the meaning of its term** (`Printer.sketch_shows`): it has the same shape as the
  meaning wherever something is printed, binders are marked as used exactly if they are, and every
  variable is printed by the name of its own binder, in a clear scope.
-/

namespace Nameless

/-! ## Hints -/

/-- The hints in a plain term. -/
def Plain.hints : Plain → List String
  | var _ => []
  | lam hint body => hint :: body.hints
  | app fn arg => fn.hints ++ arg.hints

mutual

/-- The hints in a term, also those inside substitutions. -/
def Term.hints : Term → List String
  | .var _ _ => []
  | .lam _ hint body => hint :: body.hints
  | .app _ fn arg => fn.hints ++ arg.hints
  | .pending _ s body => s.hints ++ body.hints
  | .unknown _ => []

/-- The hints in a substitution. -/
def Subst.hints : Subst → List String
  | .shift _ => []
  | .dot head rest => head.hints ++ rest.hints
  | .unknown => []

end

namespace Plain

/-- Renaming keeps the hints. -/
@[simp] theorem hints_rename (e : Plain) (ρ : Nat → Nat) : (e.rename ρ).hints = e.hints := by
  induction e generalizing ρ with
  | var k => rfl
  | lam hint body ih => rw [rename, hints, hints, ih]
  | app fn arg ihf iha => rw [rename, hints, hints, ihf, iha]

/-- A hint of a substituted term comes from the term or from what is put in. -/
theorem mem_hints_subst {e : Plain} {σ : Assignment} {hint : String}
    (h : hint ∈ (e.subst σ).hints) : hint ∈ e.hints ∨ ∃ k, hint ∈ (σ k).hints := by
  induction e generalizing σ with
  | var k => exact .inr ⟨k, h⟩
  | lam name body ih =>
    rw [subst, hints, List.mem_cons] at h
    rw [hints, List.mem_cons]
    rcases h with h | h
    · exact .inl (.inl h)
    · rcases ih h with h | ⟨k, h⟩
      · exact .inl (.inr h)
      · cases k with
        | zero => cases h
        | succ k =>
          rw [Assignment.lift_succ, hints_rename] at h
          exact .inr ⟨k, h⟩
  | app fn arg ihf iha =>
    rw [subst, hints, List.mem_append] at h
    rw [hints, List.mem_append]
    rcases h with h | h
    · exact (ihf h).imp .inl id
    · exact (iha h).imp .inr id

/-- The hints of a run of abstractions are its own, and then those below. -/
@[simp] theorem hints_lams (names : List String) (e : Plain) :
    (lams names e).hints = names ++ e.hints := by
  induction names with
  | nil => rfl
  | cons hint names ih => rw [lams_cons, hints, ih, List.cons_append]

/-- Below an abstraction over several hints, an index counts from further out. -/
@[simp] theorem free_lams (names : List String) (e : Plain) (k : Nat) :
    (lams names e).free k = e.free (k + names.length) := by
  induction names generalizing k with
  | nil => rfl
  | cons hint names ih =>
    rw [lams_cons, free, ih, List.length_cons, Nat.add_right_comm, Nat.add_assoc]

end Plain

mutual

/-- The meaning of a term has no hints but those of the term. -/
theorem Term.mem_hints_of_meaning {hint : String} : (e : Term) →
    hint ∈ e.meaning.hints → hint ∈ e.hints
  | .var _ _, h => h
  | .lam _ name body, h => by
    rw [Term.meaning, Plain.hints, List.mem_cons] at h
    rw [Term.hints, List.mem_cons]
    exact h.imp id (Term.mem_hints_of_meaning body)
  | .app _ fn arg, h => by
    rw [Term.meaning, Plain.hints, List.mem_append] at h
    rw [Term.hints, List.mem_append]
    exact h.imp (Term.mem_hints_of_meaning fn) (Term.mem_hints_of_meaning arg)
  | .pending _ s body, h => by
    rw [Term.hints, List.mem_append]
    rcases Plain.mem_hints_subst h with h | ⟨k, h⟩
    · exact .inr (Term.mem_hints_of_meaning body h)
    · exact .inl (Subst.mem_hints_of_meaning s k h)
  | .unknown _, h => h

@[inherit_doc Term.mem_hints_of_meaning]
theorem Subst.mem_hints_of_meaning {hint : String} : (s : Subst) → (k : Nat) →
    hint ∈ (s.meaning k).hints → hint ∈ s.hints
  | .shift _, _, h => h
  | .dot head rest, 0, h => by
    rw [Subst.hints, List.mem_append]
    exact .inl (Term.mem_hints_of_meaning head h)
  | .dot head rest, k + 1, h => by
    rw [Subst.hints, List.mem_append]
    exact .inr (Subst.mem_hints_of_meaning rest k h)
  | .unknown, _, h => h

end

/-- A run of abstractions at the head of a regular term: it is found, and the meaning is that of
what is below, abstracted over the hints. -/
theorem Term.run_regular {e : Term} (he : e.Regular) :
    ∃ hints inner, e.run = .ok (hints, inner) ∧ inner.Regular ∧
      e.meaning = Plain.lams hints inner.meaning := by
  fun_induction Term.run e with
  | case1 e x hx =>
    obtain ⟨r, hr, -⟩ := Term.expose_regular he
    rw [hr] at hx
    cases hx
  | case2 e loc hint body hexp ih =>
    obtain ⟨hreg, hmean⟩ := Term.regular_of_expose he hexp
    obtain ⟨hints, inner, hrun, hinner, hbody⟩ := ih hreg
    refine ⟨hint :: hints, inner, Failure.bind_eq_ok.2 ⟨_, hrun, rfl⟩, hinner, ?_⟩
    rw [← hmean, Term.meaning, hbody, Plain.lams_cons]
  | case3 e inner hlam hexp =>
    obtain ⟨hreg, hmean⟩ := Term.regular_of_expose he hexp
    exact ⟨[], inner, rfl, hreg, hmean.symm⟩

/-- What is below a run of a regular term is regular, and the meaning is abstracted over the run. -/
theorem Term.regular_of_run {e : Term} (he : e.Regular) {hints : List String} {inner : Term}
    (h : e.run = .ok (hints, inner)) :
    inner.Regular ∧ e.meaning = Plain.lams hints inner.meaning := by
  obtain ⟨hints', inner', hrun, hinner, hmean⟩ := Term.run_regular he
  rw [hrun] at h
  cases h
  exact ⟨hinner, hmean⟩

/-! ## Scopes -/

/-- The names in scope, innermost first, are clear of each other: no two that are used are the same,
those that are not used are the placeholder, and those that are used are good. -/
structure Clear (good : String → Prop) (scope : List Binder) : Prop where
  apart : scope.Pairwise fun b b' => b.used = true → b'.used = true → b.name ≠ b'.name
  unused : ∀ b ∈ scope, b.used = false → b.name = "_"
  good : ∀ b ∈ scope, b.used = true → good b.name

/-- The scope that a context makes: all its names count as used. -/
def Binder.ofContext (context : List String) : List Binder := context.map fun name => ⟨name, true⟩

/-- The binders of a context have its names. -/
@[simp] theorem Binder.names_ofContext (context : List String) :
    (Binder.ofContext context).map Binder.name = context := by
  rw [ofContext, List.map_map]
  exact List.map_id context

/-- The binders of a context count as used, and have its names. -/
theorem Binder.used_of_mem_ofContext {context : List String} {b : Binder}
    (h : b ∈ Binder.ofContext context) : b.used = true ∧ b.name ∈ context := by
  obtain ⟨name, hname, rfl⟩ := List.mem_map.1 h
  exact ⟨rfl, hname⟩

/-- A context of different names is clear. -/
theorem Clear.ofContext {good : String → Prop} {context : List String} (h : context.Nodup)
    (hgood : ∀ name ∈ context, good name) : Clear good (Binder.ofContext context) where
  apart := by
    rw [Binder.ofContext, List.pairwise_map]
    refine List.Pairwise.imp ?_ h
    intro name name' hne _ _
    exact hne
  unused := by
    intro b hb hunused
    rw [(Binder.used_of_mem_ofContext hb).1] at hunused
    cases hunused
  good := by
    intro b hb _
    exact hgood _ (Binder.used_of_mem_ofContext hb).2

namespace Clear

variable {good : String → Prop}

/-- A new binder may stand anywhere, if it is clear of all the others. -/
theorem insert {inner outer : List Binder} {b : Binder} (h : Clear good (inner ++ outer))
    (hused : b.used = true → b.name ∉ (inner ++ outer).map Binder.name ∧ good b.name)
    (hunused : b.used = false → b.name = "_") : Clear good (inner ++ b :: outer) where
  apart := by
    rw [List.pairwise_middle fun hne hx hy => (hne hy hx).symm, List.pairwise_cons]
    refine ⟨?_, h.apart⟩
    intro b' hb' hb _ hname
    exact (hused hb).1 (hname ▸ List.mem_map_of_mem hb')
  unused := by
    intro b' hb'
    rw [List.mem_append, List.mem_cons, or_left_comm, ← List.mem_append] at hb'
    rcases hb' with rfl | hb'
    · exact hunused
    · exact h.unused b' hb'
  good := by
    intro b' hb'
    rw [List.mem_append, List.mem_cons, or_left_comm, ← List.mem_append] at hb'
    rcases hb' with rfl | hb'
    · exact fun hb => (hused hb).2
    · exact h.good b' hb'

/-- Outside its innermost binder, a clear scope is clear. -/
theorem tail {b : Binder} {rest : List Binder} (h : Clear good (b :: rest)) : Clear good rest where
  apart := (List.pairwise_cons.1 h.apart).2
  unused := fun b' hb' => h.unused b' (List.mem_cons_of_mem b hb')
  good := fun b' hb' => h.good b' (List.mem_cons_of_mem b hb')

/-- The innermost binder takes a used name from outside exactly if the name is the placeholder and
the binder is not used. -/
theorem head_name_ne_iff {b : Binder} {rest : List Binder} (h : Clear good (b :: rest))
    {name : String} (hname : ⟨name, true⟩ ∈ rest) :
    b.name ≠ name ↔ (name = "_" → b.used = true) := by
  cases hb : b.used with
  | true =>
    have hne := (List.pairwise_cons.1 h.apart).1 _ hname hb rfl
    simp [hne]
  | false =>
    rw [h.unused b List.mem_cons_self hb]
    simp [eq_comm]

/-- **A used name reads back as its own binder, unless it is the placeholder and stands below an
unused binder.** -/
theorem idxOf?_eq_some_iff {scope : List Binder} (h : Clear good scope) {i : Nat} {name : String}
    (hi : scope[i]? = some ⟨name, true⟩) :
    (scope.map Binder.name).idxOf? name = some i ↔
      (name = "_" → ∀ b ∈ scope.take i, b.used = true) := by
  induction scope generalizing i with
  | nil => cases hi
  | cons b rest ih =>
    cases i with
    | zero =>
      have hb : b = ⟨name, true⟩ := Option.some.inj hi
      simp [hb, List.idxOf?_cons]
    | succ i =>
      have hrest : rest[i]? = some ⟨name, true⟩ := hi
      have hhead := h.head_name_ne_iff (List.mem_of_getElem? hrest)
      have hpast : ((b :: rest).map Binder.name).idxOf? name = some (i + 1) ↔
          b.name ≠ name ∧ (rest.map Binder.name).idxOf? name = some i := by
        rw [List.map_cons, List.idxOf?_cons]
        by_cases hb : b.name = name
        · simp [hb]
        · simp [hb]
      rw [hpast, hhead, ih h.tail hrest, List.take_succ_cons]
      simp only [List.mem_cons, forall_eq_or_imp, imp_and]

end Clear

/-- A sketch shows a plain term in a scope, wherever something is printed: it has the same shape,
a binder list has one binder for each abstraction, and a variable is printed by the name of its own
binder, which is used. All scopes on the way are clear. -/
def Sketch.Shows (good : String → Prop) : List Binder → Sketch → Plain → Prop
  | _, hole _, _ => True
  | scope, var index name, e =>
    e = .var index ∧ scope[index]? = some ⟨name, true⟩ ∧ Clear good scope
  | scope, lam binders body, e => ∃ hints inner, e = .lams hints inner ∧
    hints ≠ [] ∧ hints.length = binders.length ∧ Clear good (binders ++ scope) ∧
    body.Shows good (binders ++ scope) inner
  | scope, app fn arg, e => ∃ f a, e = .app f a ∧ fn.Shows good scope f ∧ arg.Shows good scope a

namespace Printer

/-- The printer with the default symbols that varies names by counting, with any limit on
groups. -/
def standard (limit : Int) : Printer := { style := { maxGroups := limit } }

/-- Counting looks at nothing but the name and the names that are taken. -/
theorem steady_standard (limit : Int) : (standard limit).freshen.Steady :=
  Name.Freshen.counting_steady

/-- **A binder list keeps the scope clear**, and marks its binders as used exactly if they are. The
induction is over the hints that are left; what is clear is the scope with the binders chosen so
far in front. -/
theorem nameBinders_clear {good : String → Prop}
    (hcounted : ∀ hint name, good hint → Name.Counted hint name → good name) {limit : Int}
    {body : Term} (hbody : body.Regular) {asked : List Name.Query} {scope chosen bs : List Binder}
    {hints : List String}
    (h : ((standard limit).nameBinders (scope.map Binder.name) body asked chosen hints).outcome =
      .ok bs)
    (hclear : Clear good (chosen ++ scope)) (hhints : ∀ hint ∈ hints, good hint)
    (hused : ∀ i b, chosen[i]? = some b → b.used = body.meaning.free i) :
    Clear good (bs ++ scope) ∧ ∀ i b, bs[i]? = some b → b.used = body.meaning.free i := by
  induction hints generalizing asked chosen with
  | nil =>
    cases h
    exact ⟨hclear, hused⟩
  | cons hint hints ih =>
    obtain ⟨used, name, hoccurs, hname, h⟩ := nameBinders_cons_eq_ok h
    obtain rfl : body.meaning.free chosen.length = used := by
      rw [Term.occurs_regular hbody] at hoccurs
      exact Except.ok.inj hoccurs
    unfold nameFor at hname
    have hnext : Clear good ((chosen ++ [⟨name, body.meaning.free chosen.length⟩]) ++ scope) := by
      rw [List.append_assoc]
      refine hclear.insert ?_ ?_
      · intro hfree
        rw [if_pos hfree] at hname
        obtain ⟨hnot, hshape⟩ := Name.Freshen.counting_eq_ok asked hname
        refine ⟨?_, ?_⟩
        · rwa [List.map_append, List.mem_append, or_comm, ← List.mem_append]
        · rcases hshape with rfl | hcount
          · exact hhints _ List.mem_cons_self
          · exact hcounted hint name (hhints _ List.mem_cons_self) hcount
      · intro hfree
        rw [if_neg (Bool.eq_false_iff.1 hfree)] at hname
        exact (Except.ok.inj hname).symm
    have hmarked : ∀ i b, (chosen ++ [⟨name, body.meaning.free chosen.length⟩])[i]? = some b →
        b.used = body.meaning.free i := by
      intro i b hi
      rw [List.getElem?_append] at hi
      split at hi
      · exact hused i b hi
      · rename_i hge
        rw [List.getElem?_singleton] at hi
        split at hi
        · have hi' : i = chosen.length := by omega
          rw [hi', ← Option.some.inj hi]
        · cases hi
    have hrest : ∀ hint ∈ hints, good hint := by
      intro other hmem
      exact hhints other (List.mem_cons_of_mem hint hmem)
    exact ih h hnext hrest hmarked

/-- **A sketch shows the meaning of its term.** What has to be known of the scope is that it is
clear, and that a variable that occurs in the term is marked as used. -/
theorem sketch_shows {good : String → Prop}
    (hcounted : ∀ hint name, good hint → Name.Counted hint name → good name) {limit room : Int}
    {context : List String} {asked : List Name.Query} {e : Term} {scope : List Binder}
    {sketch : Sketch}
    (h : ((standard limit).trace context room asked e).sketch = .ok sketch) (he : e.Regular)
    (hscope : scope.map Binder.name = context) (hclear : Clear good scope)
    (hhints : ∀ hint ∈ e.meaning.hints, good hint)
    (hused : ∀ k b, scope[k]? = some b → e.meaning.free k = true → b.used = true) :
    sketch.Shows good scope e.meaning := by
  fun_induction (standard limit).trace context room asked e generalizing scope sketch with
  | case1 context room asked e hle =>
    cases h
    trivial
  | case2 context room asked hgt loc index name hname =>
    cases h
    have hindex : ¬ index < 0 := Int.not_lt.2 he
    rw [nameAt?, if_neg hindex, ← hscope, List.getElem?_map] at hname
    obtain ⟨b, hb, hbname⟩ := Option.map_eq_some_iff.1 hname
    have hbused : b.used = true := hused _ b hb (by simp [Term.meaning, Plain.free])
    have hbinder : b = ⟨name, true⟩ := by rw [← hbname, ← hbused]
    rw [hbinder] at hb
    exact ⟨rfl, hb, hclear⟩
  | case3 => cases h
  | case4 => cases h
  | case5 context room asked hgt loc s body r hforce ih =>
    obtain ⟨hreg, hmean⟩ := Term.regular_of_force he.1 he.2 hforce
    rw [Term.meaning, ← hmean] at hhints hused ⊢
    exact ih h hreg hscope hclear hhints hused
  | case6 => cases h
  | case7 => cases h
  | case8 context room asked hgt loc hint body hints inner hrun naming bs hbs =>
    rename_i ih
    obtain ⟨hinner, hbody⟩ := Term.regular_of_run (e := body) he hrun
    have hmean : (Term.lam loc hint body).meaning = Plain.lams (hint :: hints) inner.meaning := by
      rw [Term.meaning, hbody, Plain.lams_cons]
    rw [hmean] at hhints hused ⊢
    rw [Plain.hints_lams] at hhints
    obtain ⟨below, hbelow, h⟩ := Failure.bind_eq_ok.1 h
    cases h
    simp only [naming, ← hscope] at hbs
    have hown : ∀ other ∈ (hint :: hints).reverse, good other := by
      intro other hmem
      apply hhints
      exact List.mem_append_left _ (List.mem_reverse.1 hmem)
    have hnone : ∀ i b, ([] : List Binder)[i]? = some b → b.used = inner.meaning.free i := by
      intro i b hi
      cases hi
    obtain ⟨hbsclear, hbsused⟩ := nameBinders_clear hcounted hinner hbs hclear hown hnone
    have hlength' : (hint :: hints).length = bs.length := by
      rw [nameBinders_length hbs, List.length_nil, Nat.zero_add, List.length_reverse]
    refine ⟨hint :: hints, inner.meaning, rfl, List.cons_ne_nil _ _, hlength', hbsclear, ?_⟩
    refine ih hbelow hinner ?_ hbsclear ?_ ?_
    · rw [List.map_append, hscope]
    · intro other hmem
      apply hhints
      exact List.mem_append_right _ hmem
    · -- an index of the body belongs to the binder list or, counted from further out, to the scope
      intro k b hk hfree
      rw [List.getElem?_append] at hk
      split at hk
      · rw [hbsused k b hk, hfree]
      · rename_i hge
        refine hused _ b hk ?_
        rw [Plain.free_lams, hlength', Nat.sub_add_cancel (Nat.le_of_not_lt hge), hfree]
  | case9 context room asked hgt loc fn arg first ihf =>
    rename_i iha
    obtain ⟨fn', hfn, h⟩ := Failure.bind_eq_ok.1 h
    obtain ⟨arg', harg, h⟩ := Failure.bind_eq_ok.1 h
    cases h
    rw [Term.meaning] at hhints hused ⊢
    refine ⟨fn.meaning, arg.meaning, rfl, ?_, ?_⟩
    · refine ihf hfn he.1 hscope hclear ?_ ?_
      · intro hint hmem
        apply hhints
        exact List.mem_append_left _ hmem
      · intro k b hk hfree
        apply hused k b hk
        rw [Plain.free, hfree, Bool.true_or]
    · refine iha harg he.2 hscope hclear ?_ ?_
      · intro hint hmem
        apply hhints
        exact List.mem_append_right _ hmem
      · intro k b hk hfree
        apply hused k b hk
        rw [Plain.free, hfree, Bool.or_true]
  | case10 => cases h

/-- In a context of different names, the sketch of a term shows its meaning. -/
theorem sketch_shows_of_nodup (good : String → Prop)
    (hcounted : ∀ hint name, good hint → Name.Counted hint name → good name) {limit : Int}
    {context : List String} {e : Term} {sketch : Sketch}
    (h : (standard limit).sketch context limit e = .ok sketch) (he : e.Regular)
    (hcontext : context.Nodup) (hnames : ∀ name ∈ context, good name)
    (hhints : ∀ hint ∈ e.hints, good hint) :
    sketch.Shows good (Binder.ofContext context) e.meaning := by
  refine sketch_shows hcounted h he (Binder.names_ofContext context)
    (Clear.ofContext hcontext hnames) ?_ ?_
  · intro hint hmem
    apply hhints
    exact Term.mem_hints_of_meaning e hmem
  · intro k b hk _
    exact (Binder.used_of_mem_ofContext (List.mem_of_getElem? hk)).1

end Printer

end Nameless
