import Nameless.Proofs.ReadBack

/-!
# As few parentheses as possible

A phrase without its parentheses, and with every binder list read as nested single binders, is a
term with names (`Phrase.named`). Many phrases stand for the same such term, and the printed one has
the fewest parentheses of all of them.

* **The grammar demands some pairs** (`Named.pairs`): a place that wants a row or an atom has to be
  given one, whatever the term is that stands there. Every phrase has the pairs that its term
  demands (`Phrase.pairs_le`), by induction on the derivation.
* **What is printed has no others** (`Sketch.ReadsAs.count_framed`): the printer puts a pair where
  the level of a term exceeds what its place allows, and there the grammar demands it.
* **So no text that stands for the same term has fewer** (`Printer.format_fewest_parens`), and a
  bound on the level of the whole adds one pair around it, or none.
-/

namespace Nameless

/-! ## Terms with names -/

/-- A term with names for its variables and binders. -/
inductive Named where
  | var (name : String)
  | lam (name : String) (body : Named)
  | app (fn arg : Named)
deriving DecidableEq, Repr

namespace Named

/-- Abstracts over names, the first one outermost. -/
def lams (names : List String) (body : Named) : Named := names.foldr lam body

/-- The level of a term, as the printer has it. -/
def level : Named → Int
  | var _ => 0
  | lam _ _ => Level.lam
  | app _ _ => Level.app

/-- The pairs of parentheses that a place demands around a term of a level: one or none. -/
def frame (max : Option Int) (level : Int) : Nat := (Print.needsParen max level).toNat

/-- The pairs of parentheses that a term demands in a place that allows a level. The function of an
application has to be a row and its argument an atom; nothing is asked of what is below a binder. -/
def pairs : Option Int → Named → Nat
  | max, var _ => frame max 0
  | max, lam _ body => frame max Level.lam + body.pairs none
  | max, app fn arg => frame max Level.app + (fn.pairs (some Level.app) + arg.pairs (some 0))

/-- A place that allows every level demands no pair. -/
@[simp] theorem frame_none (level : Int) : frame none level = 0 := rfl

/-- A place demands at most one pair around the whole. -/
theorem frame_le_one (max : Option Int) (level : Int) : frame max level ≤ 1 := Bool.toNat_le _

/-- A place that allows less demands no less. -/
theorem frame_le_frame {m m' : Int} (h : m' ≤ m) (level : Int) :
    frame (some m) level ≤ frame (some m') level := by
  simp only [frame, Print.needsParen]
  by_cases hlevel : m < level
  · have hlevel' : m' < level := by omega
    simp [hlevel, hlevel']
  · simp [hlevel]

/-- The place of a term matters only for the pair around the whole. -/
theorem pairs_eq (max : Option Int) (e : Named) :
    e.pairs max = frame max e.level + e.pairs none := by
  cases e with
  | var name => rw [pairs, pairs, frame_none, Nat.add_zero, level]
  | lam name body => rw [pairs, pairs, frame_none, Nat.zero_add, level]
  | app fn arg => rw [pairs, pairs, frame_none, Nat.zero_add, level]

/-- Where nothing is asked of it, a binder list demands what its body demands. -/
@[simp] theorem pairs_lams (names : List String) (body : Named) :
    (lams names body).pairs none = body.pairs none := by
  induction names with
  | nil => rfl
  | cons name names ih =>
    rw [← ih]
    exact Nat.zero_add _

end Named

/-! ## What the grammar demands -/

mutual

/-- The term with names that a phrase stands for: parentheses are forgotten, and a binder list is
read as nested single binders. -/
def Phrase.named : Phrase → Named
  | .row r => r.named
  | .binders first others below => .lams (first :: others) below.named

@[inherit_doc Phrase.named]
def Row.named : Row → Named
  | .one t => t.named
  | .snoc r t => .app r.named t.named

@[inherit_doc Phrase.named]
def Atom.named : Atom → Named
  | .name s => .var s
  | .paren p => p.named

end

/-- The names of a binder list open no parenthesis. -/
theorem Phrase.count_binders (first : String) (others : List String) (below : Phrase) :
    (binders first others below).tokens.count .opening = below.tokens.count .opening := by
  have hnames : (others.map Token.name).count .opening = 0 := by
    rw [List.count_eq_zero]
    intro hmem
    obtain ⟨s, -, hs⟩ := List.mem_map.1 hmem
    cases hs
  simp [tokens, List.count_append, hnames]

mutual

/-- **A phrase has the pairs of parentheses that its term demands.** -/
theorem Phrase.pairs_le : (p : Phrase) → p.named.pairs none ≤ p.tokens.count .opening
  | .row r => by
    have hrow := r.pairs_le
    rw [Named.pairs_eq] at hrow
    rw [Phrase.named, Phrase.tokens]
    omega
  | .binders first others below => by
    rw [Phrase.count_binders, Phrase.named, Named.pairs_lams]
    exact below.pairs_le

/-- A row has the pairs that its term demands where a row is wanted. -/
theorem Row.pairs_le : (r : Row) → r.named.pairs (some Level.app) ≤ r.tokens.count .opening
  | .one t => by
    have hatom := t.pairs_le
    have hlevel : (0 : Int) ≤ Level.app := by decide
    have hframe := Named.frame_le_frame hlevel t.named.level
    rw [Named.pairs_eq] at hatom
    rw [Row.named, Row.tokens, Named.pairs_eq]
    omega
  | .snoc r t => by
    have hrow := r.pairs_le
    have hatom := t.pairs_le
    have hframe : Named.frame (some Level.app) Level.app = 0 := by decide
    rw [Row.named, Row.tokens, Named.pairs, List.count_append, hframe]
    omega

/-- An atom has the pairs that its term demands where an atom is wanted. Only a phrase in
parentheses may demand one for the whole, and it has it. -/
theorem Atom.pairs_le : (t : Atom) → t.named.pairs (some 0) ≤ t.tokens.count .opening
  | .name s => Nat.le_refl 0
  | .paren p => by
    have hbelow := p.pairs_le
    have hframe := Named.frame_le_one (some 0) p.named.level
    rw [Atom.named, Atom.tokens, Named.pairs_eq, List.count_cons_self, List.count_append]
    omega

end

/-! ## What is printed -/

namespace Phrase

/-- A frame does not change what a phrase stands for. -/
@[simp] theorem framed_named (max : Option Int) (p : Phrase) : (p.framed max).named = p.named := by
  unfold framed
  split
  · rfl
  · rfl

/-- A frame adds the pair that its place demands. -/
theorem count_framed (max : Option Int) (p : Phrase) :
    (p.framed max).tokens.count .opening =
      Named.frame max p.level + p.tokens.count .opening := by
  unfold framed Named.frame
  split
  · rename_i hparen
    simp [hparen, tokens, Row.tokens, Atom.tokens, List.count_append, Nat.add_comm]
  · rename_i hparen
    simp [hparen]

end Phrase

namespace Sketch.ReadsAs

/-- What a sketch is read as has no parentheses around the whole, so it has the level of its
term. -/
theorem level_named {sketch : Sketch} {p : Phrase} (h : sketch.ReadsAs p) :
    p.named.level = p.level := by
  cases h with
  | var => rfl
  | lam => rfl
  | app => rfl

/-- **What is printed has just the pairs of parentheses that its term demands.** -/
theorem count_framed {sketch : Sketch} {p : Phrase} (h : sketch.ReadsAs p) (max : Option Int) :
    (p.framed max).tokens.count .opening = p.named.pairs max := by
  -- around the whole, that is so in every place; what is inside is the part with an induction
  suffices hinside : p.tokens.count .opening = p.named.pairs none by
    rw [Phrase.count_framed, Named.pairs_eq, h.level_named, hinside]
  induction h with
  | var hname => rfl
  | @lam binders body first others below hnames hreadable hbody ih =>
    rw [Phrase.count_binders, Phrase.named, Named.pairs_lams, ih]
  | @app fn arg pf pa r t hfn harg hr ht ihf iha =>
    have hrow : r.tokens.count .opening = pf.named.pairs (some Level.app) := by
      rw [Named.pairs_eq, hfn.level_named, ← ihf, ← Phrase.count_framed, hr]
      rfl
    have hatom : t.tokens.count .opening = pa.named.pairs (some 0) := by
      rw [Named.pairs_eq, harg.level_named, ← iha, ← Phrase.count_framed, ht]
      rfl
    have hfnNamed : r.named = pf.named := by
      rw [← Phrase.framed_named (some Level.app) pf, hr]
      rfl
    have hargNamed : t.named = pa.named := by
      rw [← Phrase.framed_named (some 0) pa, ht]
      rfl
    rw [Phrase.tokens, Row.tokens, List.count_append, hrow, hatom, Phrase.named, Row.named,
      hfnNamed, hargNamed, Named.pairs, Named.frame_none, Nat.zero_add]

end Sketch.ReadsAs

/-! ## Parentheses in a text -/

namespace Token

/-- A word opens no parenthesis. -/
theorem count_opening_flush (word : List Char) : (flush word).count opening = 0 := by
  rw [List.count_eq_zero]
  unfold flush ofWord
  split
  · simp
  · split
    · simp
    · split
      · simp
      · simp

/-- The parentheses that are opened in a text are those among its tokens. -/
theorem count_opening_scan (word chars : List Char) :
    (scan word chars).count opening = chars.count '(' := by
  induction chars generalizing word with
  | nil => exact count_opening_flush word
  | cons c rest ih =>
    by_cases hopen : c = '('
    · subst hopen
      simp [scan, List.count_append, count_opening_flush, ih]
    · rw [List.count_cons_of_ne hopen, scan, if_neg hopen]
      split
      · simp [List.count_append, count_opening_flush, ih]
      · split
        · simp [List.count_append, count_opening_flush, ih]
        · exact ih _

end Token

/-! ## Terms -/

/-- The level of a term by its head, which has to be in the open. -/
def Term.level : Term → Int
  | .lam .. => Level.lam
  | .app .. => Level.app
  | _ => 0

/-- The level of what is printed. -/
def Sketch.level : Sketch → Int
  | lam .. => Level.lam
  | app .. => Level.app
  | _ => 0

/-- A frame puts a pair of parentheses around what is in it, or changes nothing. -/
theorem Mark.chars_framed (m level : Int) (marks : List Mark) :
    chars (framed (some m) level marks) =
      if m < level then '(' :: (chars marks ++ [')']) else chars marks := by
  by_cases h : m < level
  · simp [framed, Print.needsParen, h, reading]
  · simp [framed, Print.needsParen, h]

/-- A place that allows every level puts nothing around the whole. -/
theorem Mark.chars_framed_none (level : Int) (marks : List Mark) :
    chars (framed none level marks) = chars marks := chars_grouped "" marks

/-- A bound on the level of the whole puts a pair of parentheses around the text, or changes
nothing. -/
theorem Sketch.ReadsAs.text_eq {sketch : Sketch} {p : Phrase} (h : sketch.ReadsAs p)
    (symbol : String) (m : Int) :
    sketch.text symbol (some m) =
      if m < sketch.level then "(" ++ sketch.text symbol none ++ ")"
      else sketch.text symbol none := by
  have hchars : Mark.chars (sketch.marks symbol (some m)) =
      if m < sketch.level then '(' :: (Mark.chars (sketch.marks symbol none) ++ [')'])
      else Mark.chars (sketch.marks symbol none) := by
    cases h with
    | var => simp only [marks, level, Mark.chars_framed, Mark.chars_framed_none]
    | lam => simp only [marks, level, Mark.chars_framed, Mark.chars_framed_none]
    | app => simp only [marks, level, Mark.chars_framed, Mark.chars_framed_none]
  rw [text, hchars]
  split
  · rw [← String.toList_inj]
    simp [text]
  · rfl

namespace Printer

/-- A name that is chosen for a binder is readable, if its hint is. -/
theorem nameFor_readable {limit : Int} {asked : List Name.Query} {used : Bool}
    {query : Name.Query} {name : String}
    (h : (standard limit).nameFor asked used query = .ok name)
    (hhint : Name.Readable query.1) : Name.Readable name := by
  cases used with
  | false =>
    cases h
    exact Name.readable_placeholder
  | true =>
    have hfresh : Name.Freshen.counting asked query.1 query.2 = .ok name := h
    rcases (Name.Freshen.counting_eq_ok asked hfresh).2 with rfl | hcounted
    · exact hhint
    · exact hhint.counted hcounted

/-- A binder list has readable names, if its hints are readable. -/
theorem nameBinders_readable {limit : Int} {context : List String} {body : Term}
    {asked : List Name.Query} {chosen bs : List Binder} {hints : List String}
    (h : ((standard limit).nameBinders context body asked chosen hints).outcome = .ok bs)
    (hchosen : ∀ b ∈ chosen, Name.Readable b.name) (hhints : ∀ hint ∈ hints, Name.Readable hint) :
    ∀ b ∈ bs, Name.Readable b.name := by
  induction hints generalizing asked chosen with
  | nil =>
    cases h
    exact hchosen
  | cons hint hints ih =>
    obtain ⟨used, name, -, hname, hrest⟩ := nameBinders_cons_eq_ok h
    refine ih hrest ?_ fun other hmem => hhints other (List.mem_cons_of_mem hint hmem)
    intro b hb
    rcases List.mem_append.1 hb with hb | hb
    · exact hchosen b hb
    · rw [List.mem_singleton.1 hb]
      exact nameFor_readable hname (hhints hint List.mem_cons_self)

/-- **Where nothing is left out and all names are readable, a sketch is read as a phrase.** The
names of the context need not be different from each other. -/
theorem sketch_readsAs {limit room : Int} {context : List String} {asked : List Name.Query}
    {e : Term} {sketch : Sketch}
    (h : ((standard limit).trace context room asked e).sketch = .ok sketch) (he : e.Regular)
    (hnames : ∀ name ∈ context, Name.Readable name)
    (hhints : ∀ hint ∈ e.meaning.hints, Name.Readable hint) {depth : Nat}
    (hwhole : sketch.skips depth = []) : ∃ p, sketch.ReadsAs p := by
  fun_induction (standard limit).trace context room asked e generalizing sketch depth with
  | case1 context room asked e hle =>
    cases h
    cases hwhole
  | case2 context room asked hgt loc index name hname =>
    cases h
    have hindex : ¬ index < 0 := Int.not_lt.2 he
    rw [nameAt?, if_neg hindex] at hname
    exact ⟨_, .var (hnames name (List.mem_of_getElem? hname))⟩
  | case3 => cases h
  | case4 => cases h
  | case5 context room asked hgt loc s body r hforce ih =>
    obtain ⟨hreg, hmean⟩ := Term.regular_of_force he.1 he.2 hforce
    rw [Term.meaning, ← hmean] at hhints
    exact ih h hreg hnames hhints hwhole
  | case6 => cases h
  | case7 => cases h
  | case8 context room asked hgt loc hint body hints inner hrun naming bs hbs =>
    rename_i ih
    obtain ⟨hinner, hbody⟩ := Term.regular_of_run (e := body) he hrun
    rw [Term.meaning, hbody, ← Plain.lams_cons, Plain.hints_lams] at hhints
    obtain ⟨below, hbelow, h⟩ := Failure.bind_eq_ok.1 h
    cases h
    have hreadable : ∀ b ∈ bs, Name.Readable b.name := by
      refine nameBinders_readable hbs (by simp) ?_
      intro other hmem
      exact hhints other (List.mem_append_left _ (List.mem_reverse.1 hmem))
    have hne : bs ≠ [] := by
      have hlength := nameBinders_length hbs
      rintro rfl
      simp at hlength
    obtain ⟨p, hp⟩ : ∃ p, below.ReadsAs p := by
      refine ih hbelow hinner ?_ ?_ hwhole
      · intro name hname
        rcases List.mem_append.1 hname with hname | hname
        · obtain ⟨b, hb, rfl⟩ := List.mem_map.1 hname
          exact hreadable b hb
        · exact hnames name hname
      · intro other hmem
        exact hhints other (List.mem_append_right _ hmem)
    obtain ⟨first, others, -, hlist⟩ := hp.exists_lam hne hreadable
    exact ⟨_, hlist⟩
  | case9 context room asked hgt loc fn arg first ihf =>
    rename_i iha
    obtain ⟨fn', hfn, h⟩ := Failure.bind_eq_ok.1 h
    obtain ⟨arg', harg, h⟩ := Failure.bind_eq_ok.1 h
    cases h
    obtain ⟨hwholef, hwholea⟩ := List.append_eq_nil_iff.1 hwhole
    obtain ⟨pf, hpf⟩ := ihf hfn he.1 hnames
      (fun hint hmem => hhints hint (List.mem_append_left _ hmem)) hwholef
    obtain ⟨pa, hpa⟩ := iha harg he.2 hnames
      (fun hint hmem => hhints hint (List.mem_append_right _ hmem)) hwholea
    obtain ⟨r, t, -, -, happ⟩ := hpf.exists_app hpa
    exact ⟨_, happ⟩
  | case10 => cases h

/-- Unless it is left out, a term is printed at the level of its head. -/
theorem level_sketch {p : Printer} {context : List String} {room : Int} {asked : List Name.Query}
    {e root : Term} (hroot : e.expose = .ok root) {sketch : Sketch}
    (h : (p.trace context room asked e).sketch = .ok sketch) {phrase : Phrase}
    (hreads : sketch.ReadsAs phrase) : sketch.level = root.level := by
  fun_induction p.trace context room asked e generalizing sketch with
  | case1 =>
    cases h
    cases hreads
  | case2 =>
    cases h
    cases hroot
    rfl
  | case3 => cases h
  | case4 => cases h
  | case5 context room asked hgt loc s body r hforce ih =>
    have hr : r = root := Except.ok.inj (hforce.symm.trans hroot)
    refine ih ?_ h hreads
    have hhead := Term.isPending_force hforce
    rw [← hr]
    cases r with
    | pending => cases hhead
    | _ => rfl
  | case6 => cases h
  | case7 => cases h
  | case8 =>
    obtain ⟨below, -, h⟩ := Failure.bind_eq_ok.1 h
    cases h
    cases hroot
    rfl
  | case9 =>
    obtain ⟨fn, -, h⟩ := Failure.bind_eq_ok.1 h
    obtain ⟨arg, -, h⟩ := Failure.bind_eq_ok.1 h
    cases h
    cases hroot
    rfl
  | case10 => cases h

/-- **A term is printed with the fewest parentheses.** Let `e` be regular, and let the names of the
context and the hints of `e` be read as names. If the text of `e` is printed with nothing left out,
then it is the text of exactly one phrase, and no phrase that stands for the same term with names
has fewer opening parentheses than the text has. A bound on the level of the whole changes nothing
but that it puts one more pair around the text if the level of the head exceeds it. -/
theorem format_fewest_parens {limit : Int} {context : List String} {e : Term}
    (hnames : ∀ name ∈ context, Name.Readable name) (he : e.Regular)
    (hhints : ∀ hint ∈ e.hints, Name.Readable hint) :
    (∀ text, PrintsWhole limit context e none text →
      ∃ p : Phrase, p.tokens = Token.ofText text ∧
        (∀ p' : Phrase, p'.tokens = Token.ofText text → p' = p) ∧
        ∀ p' : Phrase, p'.named = p.named →
          text.toList.count '(' ≤ p'.tokens.count .opening) ∧
    ∃ root, e.expose = .ok root ∧ ∀ (m : Int) (text' : String),
      PrintsWhole limit context e (some m) text' ↔ ∃ text, PrintsWhole limit context e none text ∧
        text' = if m < root.level then "(" ++ text ++ ")" else text := by
  have hreads {sketch : Sketch} (h : (standard limit).sketch context limit e = .ok sketch)
      (hwhole : sketch.skips 0 = []) : ∃ p, sketch.ReadsAs p :=
    sketch_readsAs h he hnames
      (fun hint hmem => hhints hint (Term.mem_hints_of_meaning e hmem)) hwhole
  refine ⟨?_, ?_⟩
  · intro text htext
    obtain ⟨sketch, hsketch, hwhole, rfl⟩ := printsWhole_iff.1 htext
    obtain ⟨p, hp⟩ := hreads hsketch hwhole
    have htokens : Token.ofText (sketch.text "λ" none) = p.tokens := hp.ofText_text none
    refine ⟨p, htokens.symm, ?_, ?_⟩
    · intro p' hp'
      exact Phrase.tokens_injective (hp'.trans htokens)
    · intro p' hnamed
      calc (sketch.text "λ" none).toList.count '('
          = (Token.ofText (sketch.text "λ" none)).count .opening :=
            (Token.count_opening_scan [] _).symm
        _ = p.tokens.count .opening := by rw [htokens]
        _ = p.named.pairs none := hp.count_framed none
        _ = p'.named.pairs none := by rw [hnamed]
        _ ≤ p'.tokens.count .opening := p'.pairs_le
  · obtain ⟨root, hroot, -⟩ := Term.expose_regular he
    refine ⟨root, hroot, ?_⟩
    intro m text'
    constructor
    · intro h
      obtain ⟨sketch, hsketch, hwhole, rfl⟩ := printsWhole_iff.1 h
      obtain ⟨p, hp⟩ := hreads hsketch hwhole
      refine ⟨sketch.text "λ" none, printsWhole_iff.2 ⟨sketch, hsketch, hwhole, rfl⟩, ?_⟩
      rw [hp.text_eq, level_sketch hroot hsketch hp]
    · rintro ⟨text, htext, rfl⟩
      obtain ⟨sketch, hsketch, hwhole, rfl⟩ := printsWhole_iff.1 htext
      obtain ⟨p, hp⟩ := hreads hsketch hwhole
      refine printsWhole_iff.2 ⟨sketch, hsketch, hwhole, ?_⟩
      rw [hp.text_eq, level_sketch hroot hsketch hp]

/-- Two names of the context may be the same, and a used binder may be called like the placeholder.
The function of an application needs its parentheses if it is an abstraction, and the application
as a whole gets another pair where only an atom is allowed. -/
theorem format_fewest_parens_function :
    let e := Term.pending none (.shift 1)
      (.app none (.lam none "_" (.var none 0)) (.var none 0))
    (∀ name ∈ ["y", "y"], Name.Readable name) ∧ e.Regular ∧
      (∀ hint ∈ e.hints, Name.Readable hint) ∧
      PrintsWhole 200 ["y", "y"] e none "(λ _ . _) y" ∧
      (∀ p : Phrase, p.named = .app (.lam "_" (.var "_")) (.var "y") →
        1 ≤ p.tokens.count .opening) ∧
      PrintsWhole 200 ["y", "y"] e (some 0) "((λ _ . _) y)" := by
  intro e
  let s := Subst.dot (.var none 0) (.shift 2)
  let inner := Term.var none 0
  let root := Term.app none (.pending none (.shift 1) (.lam none "_" (.var none 0)))
    (.pending none (.shift 1) (.var none 0))
  have hroot : e.expose = .ok root := by
    simp only [e, root]
    cbv
  have hlam : (standard 200).trace ["y", "y"] 199 []
      (.pending none (.shift 1) (.lam none "_" (.var none 0))) =
      .lam [("_", ["y", "y"])] [⟨"_", true⟩] (.var 0 "_") := by
    have hforce : (Term.lam none "_" (.var none 0)).force (.shift 1) =
        .ok (.lam none "_" (.pending none s (.var none 0))) := by
      simp only [s]
      cbv
    have hrun : (Term.pending none s (.var none 0)).run = .ok ([], inner) := by
      have hexpose : (Term.pending none s (.var none 0)).expose = .ok inner := by
        simp only [s, inner]
        cbv
      rw [Term.run, hexpose]
    have hbinders : (standard 200).nameBinders ["y", "y"] inner [] [] ["_"] =
        ⟨[("_", ["y", "y"])], .ok [⟨"_", true⟩]⟩ := by
      have hused : inner.occurs (([] : List Binder).length : Int) = .ok true :=
        Term.occurs_regular (by decide) 0
      have hname : (standard 200).nameFor [] true ("_", ["y", "y"]) = .ok "_" := rfl
      exact nameBinders_cons hused hname []
    exact (trace_pending (by decide) hforce [] none).trans
      (trace_lam (by decide) hrun hbinders (trace_var (by decide) rfl _ none) none)
  have hvar : (standard 200).trace ["y", "y"] 199 [("_", ["y", "y"])]
      (.pending none (.shift 1) (.var none 0)) = .var 1 "y" := by
    have hforce : (Term.var none 0).force (.shift 1) = .ok (.var none 1) := by cbv
    exact (trace_pending (by decide) hforce _ none).trans (trace_var (by decide) rfl _ none)
  have htrace : (standard 200).trace ["y", "y"] 200 [] e =
      .app (.lam [("_", ["y", "y"])] [⟨"_", true⟩] (.var 0 "_")) (.var 1 "y") := by
    have hforce : (Term.app none (.lam none "_" (.var none 0)) (.var none 0)).force (.shift 1) =
        .ok root := hroot
    exact (trace_pending (by decide) hforce [] none).trans (trace_app (by decide) hlam hvar none)
  have hsketch : (standard 200).sketch ["y", "y"] 200 e =
      .ok (.app (.lam [⟨"_", true⟩] (.var 0 "_")) (.var 1 "y")) := by
    rw [Printer.sketch, htrace]
    rfl
  have hnames : ∀ name ∈ ["y", "y"], Name.Readable name := by
    have hy : Name.Readable "y" := by
      refine ⟨?_, ?_, ?_, ?_⟩ <;> simp [Token.isSeparator]
    simp [hy]
  have hhints : ∀ hint ∈ e.hints, Name.Readable hint := by
    simp [e, Term.hints, Subst.hints, Name.readable_placeholder]
  have he : e.Regular := by decide
  obtain ⟨desk', hformat, hskips⟩ :=
    runAt_format (steady_standard 200) hsketch none (.blank 200)
  have hwhole : PrintsWhole 200 ["y", "y"] e none "(λ _ . _) y" :=
    ⟨.blank 200, desk', hformat, hskips⟩
  obtain ⟨hfewest, root', hroot', hbound⟩ := @format_fewest_parens 200 _ _ hnames he hhints
  rw [hroot] at hroot'
  cases hroot'
  refine ⟨hnames, he, hhints, hwhole, ?_, (hbound 0 _).2 ⟨_, hwhole, by decide⟩⟩
  intro p hp
  obtain ⟨p', -, hunique, hleast⟩ := hfewest _ hwhole
  let printed := Phrase.row (.snoc (.one (.paren (.binders "_" [] (.row (.one (.name "_"))))))
    (.name "y"))
  have hprinted : printed.tokens = Token.ofText "(λ _ . _) y" := by decide
  rw [← hunique printed hprinted] at hleast
  exact hleast p hp

end Printer

end Nameless
