import Nameless.Proofs.Naming
import Nameless.Proofs.Phrase

/-!
# Printed text reads back

If nothing is left out for lack of room and all names can be told from the symbols, the text of a
term is read as one phrase of the grammar, and that phrase is resolved to what the term comes to
when everything in it is carried out, up to hints.

* **A sketch is read as a phrase** (`Sketch.ReadsAs`): where a place allows a level, what is printed
  is an atom or a phrase of an allowed level, so it fits in where the grammar wants a row or an
  atom. Its marks spell that phrase (`Sketch.ReadsAs.spells`), and resolved in the scope, the phrase
  is what the sketch shows (`Sketch.Shows.exists_readsAs`).
* **Printed text reads back as the same term** (`Printer.format_resolves`), so terms with the same
  text have the same meaning.
-/

namespace Nameless

/-! ## Up to hints -/

namespace Plain

/-- A term without its hints. -/
def unnamed : Plain → Plain
  | var k => var k
  | lam _ body => lam "" body.unnamed
  | app fn arg => app fn.unnamed arg.unnamed

/-- Abstractions over as many hints are the same up to hints. -/
theorem unnamed_lams {names hints : List String} (h : names.length = hints.length) {e e' : Plain}
    (he : e.unnamed = e'.unnamed) : (lams names e).unnamed = (lams hints e').unnamed := by
  induction names generalizing hints with
  | nil =>
    rw [List.length_eq_zero_iff.1 h.symm]
    exact he
  | cons name names ih =>
    cases hints with
    | nil => cases h
    | cons hint hints => rw [lams_cons, lams_cons, unnamed, unnamed, ih (Nat.succ.inj h)]

/-- Different plain terms are different as terms. -/
theorem toTerm_injective {e e' : Plain} (h : e.toTerm = e'.toTerm) : e = e' := by
  induction e generalizing e' with
  | var k =>
    cases e' with
    | var k' => rw [Int.ofNat.inj (Term.var.inj h).2]
    | lam hint body => cases h
    | app fn arg => cases h
  | lam hint body ih =>
    cases e' with
    | var k' => cases h
    | lam hint' body' =>
      obtain ⟨-, hhint, hbody⟩ := Term.lam.inj h
      rw [hhint, ih hbody]
    | app fn arg => cases h
  | app fn arg ihf iha =>
    cases e' with
    | var k' => cases h
    | lam hint body => cases h
    | app fn' arg' =>
      obtain ⟨-, hfn, harg⟩ := Term.app.inj h
      rw [ihf hfn, iha harg]

end Plain

/-- Carrying out everything that is pending in a term gives a plain term, up to hints and to where
it was read. -/
def Term.ComesTo (e : Term) (m : Plain) : Prop :=
  ∃ (r : Term) (m' : Plain), e.forceAll = .ok r ∧ r.Same m'.toTerm ∧ m'.unnamed = m.unnamed

/-- A regular term comes to its meaning. -/
theorem Term.comesTo_iff {e : Term} (he : e.Regular) {m : Plain} :
    e.ComesTo m ↔ e.meaning.unnamed = m.unnamed := by
  obtain ⟨r, hr, hsame⟩ := Term.forceAll_regular he
  constructor
  · rintro ⟨r', m', hr', hsame', hm'⟩
    rw [hr] at hr'
    cases hr'
    have hterm : e.meaning.toTerm = m'.toTerm := by
      have heq : e.meaning.toTerm.bare = m'.toTerm.bare := hsame.symm.trans hsame'
      rwa [Plain.bare_toTerm, Plain.bare_toTerm] at heq
    rw [Plain.toTerm_injective hterm, hm']
  · intro hm
    exact ⟨r, e.meaning, hr, hsame, hm⟩

/-! ## Words -/

/-- A name that is read as a name. -/
structure Name.Readable (name : String) : Prop where
  ne_empty : name ≠ ""
  no_separator : ∀ c ∈ name.toList, Token.isSeparator c = false
  ne_dot : name ≠ "."
  ne_lambda : name ≠ "λ"

namespace Name

/-- The placeholder is read as a name. -/
theorem readable_placeholder : Readable "_" := by
  refine ⟨?_, ?_, ?_, ?_⟩ <;> simp [Token.isSeparator]

/-- A number at the end keeps a name readable. -/
theorem Readable.counted {hint name : String} (h : Readable hint) (hc : Counted hint name) :
    Readable name := by
  obtain ⟨c, hlast, hdigit⟩ := hc.getLast?
  have hne (s : String) (hs : ∀ c ∈ s.toList.getLast?, c.isDigit = false) : name ≠ s := by
    rintro rfl
    rw [hs c hlast] at hdigit
    cases hdigit
  refine ⟨hne "" (by simp), ?_, hne "." (by simp), hne "λ" (by simp)⟩
  intro c' hc'
  rcases hc.mem hc' with hmem | hdigit'
  · exact h.no_separator c' hmem
  · have hsep : c' ≠ ' ' ∧ c' ≠ '(' ∧ c' ≠ ')' := by
      refine ⟨?_, ?_, ?_⟩ <;> (rintro rfl; cases hdigit')
    simp [Token.isSeparator, hsep]

/-- A readable name is read as itself. -/
theorem Readable.spells {name : String} (h : Readable name) :
    Token.Spells name.toList [.name name] := by
  have hne {s : String} (hs : name ≠ s) : name.toList ≠ s.toList := fun heq =>
    hs (String.toList_inj.1 heq)
  have hword : Token.ofWord name.toList = .name name := by
    have hlambda : name.toList ≠ ['λ'] := hne h.ne_lambda
    have hdot : name.toList ≠ ['.'] := hne h.ne_dot
    rw [Token.ofWord, if_neg hlambda, if_neg hdot, String.ofList_toList]
  have hspells := Token.Spells.word (hne h.ne_empty) h.no_separator
  rwa [hword] at hspells

end Name

/-! ## Places -/

namespace Phrase

/-- The level of a phrase, as the printer has it. -/
def level : Phrase → Int
  | row (.one _) => 0
  | row (.snoc _ _) => Level.app
  | binders _ _ _ => Level.lam

/-- A phrase fits a place if it is an atom or its level is allowed there. -/
def Fits (max : Option Int) (p : Phrase) : Prop :=
  p.level = 0 ∨ Print.needsParen max p.level = false

/-- A phrase in parentheses, if its level exceeds what is allowed. -/
def framed (max : Option Int) (p : Phrase) : Phrase :=
  if Print.needsParen max p.level then row (.one (.paren p)) else p

/-- In its frame, a phrase fits. -/
theorem framed_fits (max : Option Int) (p : Phrase) : (p.framed max).Fits max := by
  unfold framed
  split
  · exact .inl rfl
  · rename_i hparen
    exact .inr (Bool.eq_false_iff.2 hparen)

/-- A frame does not change what a phrase is resolved to. -/
@[simp] theorem framed_resolve (max : Option Int) (p : Phrase) (scope : List String) :
    (p.framed max).resolve scope = p.resolve scope := by
  unfold framed
  split
  · rfl
  · rfl

/-- A place that allows every level needs no frame. -/
@[simp] theorem framed_none (p : Phrase) : p.framed none = p := rfl

/-- What fits the place of a function is a row. -/
theorem Fits.exists_row {p : Phrase} (h : p.Fits (some Level.app)) : ∃ r, p = row r := by
  cases p with
  | row r => exact ⟨r, rfl⟩
  | binders first others below =>
    simp [Fits, level, Print.needsParen, Level.app, Level.lam] at h

/-- What fits the place of an argument is an atom. -/
theorem Fits.exists_atom {p : Phrase} (h : p.Fits (some 0)) : ∃ t, p = row (.one t) := by
  cases p with
  | row r =>
    cases r with
    | one t => exact ⟨t, rfl⟩
    | snoc r t => simp [Fits, level, Print.needsParen, Level.app] at h
  | binders first others below => simp [Fits, level, Print.needsParen, Level.lam] at h

end Phrase

/-- A group is not seen in the text. -/
@[simp] theorem Mark.chars_grouped (name : String) (marks : List Mark) :
    chars (grouped name marks) = chars marks := by
  simp [grouped, Mark.reading]

/-- The frame of a phrase is spelled as the frame of what spells it. -/
theorem Token.Spells.framed {marks : List Mark} {p : Phrase}
    (h : Spells (Mark.chars marks) p.tokens) (max : Option Int) :
    Spells (Mark.chars (Mark.framed max p.level marks)) (p.framed max).tokens := by
  unfold Mark.framed Phrase.framed
  by_cases hparen : Print.needsParen max p.level = true
  · rw [if_pos hparen, if_pos hparen]
    simpa [Mark.reading, Phrase.tokens, Row.tokens, Atom.tokens] using h.paren
  · rw [if_neg hparen, if_neg hparen, Mark.chars_grouped]
    exact h

/-- The names of a binder list are spelled with spaces between them. -/
theorem Token.spells_sequence {names : List String} (hne : names ≠ [])
    (h : ∀ name ∈ names, Name.Readable name) :
    Spells (Mark.chars (Mark.sequence "" (names.map fun name => Mark.framed none 0 [.text name])))
      (names.map .name) := by
  induction names with
  | nil => exact absurd rfl hne
  | cons name names ih =>
    have hname := (h name List.mem_cons_self).spells
    cases names with
    | nil => simpa [Mark.sequence, Mark.framed, Print.needsParen, Mark.reading] using hname
    | cons next names =>
      have hothers : ∀ other ∈ next :: names, Name.Readable other := by
        intro other hmem
        exact h other (List.mem_cons_of_mem _ hmem)
      have hrest := ih (List.cons_ne_nil _ _) hothers
      have hboth := hname.spaced hrest
      simpa [Mark.sequence, Mark.framed, Print.needsParen, Mark.reading] using hboth

/-- A binder list is spelled as its symbol, its names, its dot, and what is below it. -/
theorem Token.spells_heading {first : String} {others : List String}
    (h : ∀ name ∈ first :: others, Name.Readable name) {chars : List Char} {below : Phrase}
    (hbelow : Spells chars below.tokens) :
    Spells (Mark.chars (Sketch.heading "λ" (first :: others)) ++ chars)
      (Phrase.binders first others below).tokens := by
  have hlambda : Spells ['λ'] [lambda] := .word (by simp) (by simp [isSeparator])
  have hdot : Spells ['.'] [dot] := .word (by simp) (by simp [isSeparator])
  have hnames := spells_sequence (List.cons_ne_nil first others) h
  have hall := hlambda.spaced (hnames.spaced (hdot.spaced hbelow))
  simpa [Sketch.heading, Mark.reading, Phrase.tokens] using hall

/-! ## Sketches -/

/-- The text of a sketch, with a symbol before binder lists, in a place that allows a level. -/
def Sketch.text (symbol : String) (max : Option Int) (sketch : Sketch) : String :=
  String.ofList (Mark.chars (sketch.marks symbol max))

/-- A sketch is read as a phrase: nothing is left out, all names are read as names, and what stands
for a function or an argument is framed as its place wants it. The frame of the whole is left to the
place where it stands. -/
inductive Sketch.ReadsAs : Sketch → Phrase → Prop
  | var {index : Nat} {name : String} (hname : Name.Readable name) :
    ReadsAs (.var index name) (.row (.one (.name name)))
  | lam {binders : List Binder} {body : Sketch} {first : String} {others : List String}
    {below : Phrase} (hnames : (binders.map Binder.name).reverse = first :: others)
    (hreadable : ∀ name ∈ first :: others, Name.Readable name) (hbody : ReadsAs body below) :
    ReadsAs (.lam binders body) (.binders first others below)
  | app {fn arg : Sketch} {pf pa : Phrase} {r : Row} {t : Atom} (hfn : ReadsAs fn pf)
    (harg : ReadsAs arg pa) (hr : pf.framed (some Level.app) = .row r)
    (ht : pa.framed (some 0) = .row (.one t)) : ReadsAs (.app fn arg) (.row (.snoc r t))

namespace Sketch.ReadsAs

/-- A binder list needs a binder, and names that are read as names. -/
theorem exists_lam {binders : List Binder} (hne : binders ≠ [])
    (hreadable : ∀ b ∈ binders, Name.Readable b.name) {body : Sketch} {below : Phrase}
    (hbody : body.ReadsAs below) : ∃ first others,
      (binders.map Binder.name).reverse = first :: others ∧
      (Sketch.lam binders body).ReadsAs (.binders first others below) := by
  have hnames : (binders.map Binder.name).reverse ≠ [] := by
    rwa [ne_eq, List.reverse_eq_nil_iff, List.map_eq_nil_iff]
  obtain ⟨first, others, hcons⟩ := List.exists_cons_of_ne_nil hnames
  refine ⟨first, others, hcons, .lam hcons ?_ hbody⟩
  intro name hname
  rw [← hcons, List.mem_reverse, List.mem_map] at hname
  obtain ⟨b, hb, rfl⟩ := hname
  exact hreadable b hb

/-- The parts of an application can always be framed. -/
theorem exists_app {fn arg : Sketch} {pf pa : Phrase} (hfn : fn.ReadsAs pf)
    (harg : arg.ReadsAs pa) : ∃ r t, pf.framed (some Level.app) = .row r ∧
      pa.framed (some 0) = .row (.one t) ∧ (Sketch.app fn arg).ReadsAs (.row (.snoc r t)) := by
  obtain ⟨r, hr⟩ := (pf.framed_fits (some Level.app)).exists_row
  obtain ⟨t, ht⟩ := (pa.framed_fits (some 0)).exists_atom
  exact ⟨r, t, hr, ht, .app hfn harg hr ht⟩

/-- **What a sketch is read as is spelled by its marks**, in any place. -/
theorem spells {sketch : Sketch} {p : Phrase} (h : sketch.ReadsAs p) (max : Option Int) :
    Token.Spells (Mark.chars (sketch.marks "λ" max)) (p.framed max).tokens := by
  induction h generalizing max with
  | @var index name hname =>
    have hspells : Token.Spells (Mark.chars [.text name]) (Phrase.row (.one (.name name))).tokens :=
      by simpa [Mark.reading, Phrase.tokens, Row.tokens, Atom.tokens] using hname.spells
    exact hspells.framed max
  | @lam binders body first others below hnames hreadable hbody ih =>
    have hlist : Token.Spells (Mark.chars (Mark.framed none Level.lam
        (Sketch.heading "λ" (first :: others) ++ body.marks "λ" none)))
        (Phrase.binders first others below).tokens := by
      simpa [Mark.framed, Print.needsParen] using Token.spells_heading hreadable (ih none)
    rw [Sketch.marks, hnames]
    exact hlist.framed max
  | @app fn arg pf pa r t hfn harg hr ht ihf iha =>
    have hrow := ihf (some Level.app)
    have hatom := iha (some 0)
    rw [hr] at hrow
    rw [ht] at hatom
    have hspells : Token.Spells (Mark.chars
        (fn.marks "λ" (some Level.app) ++ .gap :: arg.marks "λ" (some 0)))
        (Phrase.row (.snoc r t)).tokens := by
      simpa [Mark.reading, Phrase.tokens, Row.tokens] using hrow.spaced hatom
    exact hspells.framed max

/-- The text of a sketch has the tokens of what the sketch is read as. -/
theorem ofText_text {sketch : Sketch} {p : Phrase} (h : sketch.ReadsAs p) (max : Option Int) :
    Token.ofText (sketch.text "λ" max) = (p.framed max).tokens := by
  apply Token.Spells.ofText
  rw [Sketch.text, String.toList_ofList]
  exact h.spells max

end Sketch.ReadsAs

/-- A name that is read as a name and is not the placeholder. -/
def Name.Proper (name : String) : Prop := Readable name ∧ name ≠ "_"

/-- All binders of a clear scope have readable names. -/
theorem Clear.readable {scope : List Binder} (h : Clear Name.Proper scope) {b : Binder}
    (hb : b ∈ scope) : Name.Readable b.name := by
  cases hused : b.used with
  | true => exact (h.good b hb hused).1
  | false =>
    rw [h.unused b hb hused]
    exact Name.readable_placeholder

/-- **A sketch with nothing left out is read as a phrase** that is resolved to what the sketch
shows, up to hints. -/
theorem Sketch.Shows.exists_readsAs {scope : List Binder} {sketch : Sketch} {e : Plain}
    (h : sketch.Shows Name.Proper scope e) {depth : Nat} (hwhole : sketch.skips depth = []) :
    ∃ p : Phrase, sketch.ReadsAs p ∧
      ∃ q, p.resolve (scope.map Binder.name) = some q ∧ q.unnamed = e.unnamed := by
  induction sketch generalizing scope e depth with
  | hole kind => cases hwhole
  | var index name =>
    obtain ⟨rfl, hindex, hclear⟩ := h
    obtain ⟨hreadable, hplain⟩ := hclear.good _ (List.mem_of_getElem? hindex) rfl
    have hfirst : (scope.map Binder.name).idxOf? name = some index :=
      (hclear.idxOf?_eq_some_iff hindex).2 fun heq => absurd heq hplain
    refine ⟨_, .var hreadable, .var index, ?_, rfl⟩
    rw [Phrase.resolve, Row.resolve, Atom.resolve, hfirst, Option.map_some]
  | lam binders body ih =>
    obtain ⟨hints, inner, rfl, hne, hlength, hclear, hbody⟩ := h
    obtain ⟨below, hreads, q, hq, hmean⟩ := ih hbody hwhole
    have hbinders : binders ≠ [] := by
      rwa [ne_eq, ← List.length_eq_zero_iff, ← hlength, List.length_eq_zero_iff]
    -- the names stand in the text from the outside in
    obtain ⟨first, others, hcons, hlist⟩ := hreads.exists_lam hbinders
      fun b hb => hclear.readable (List.mem_append_left _ hb)
    refine ⟨_, hlist, .lams (first :: others) q, ?_, Plain.unnamed_lams ?_ hmean⟩
    · rw [Phrase.resolve, ← hcons, List.reverse_reverse, ← List.map_append, hq, Option.map_some]
    · rw [← hcons, List.length_reverse, List.length_map, hlength]
  | app fn arg ihf iha =>
    obtain ⟨f, a, rfl, hfn, harg⟩ := h
    obtain ⟨hwholef, hwholea⟩ := List.append_eq_nil_iff.1 hwhole
    obtain ⟨pf, hreadsf, qf, hqf, hmeanf⟩ := ihf hfn hwholef
    obtain ⟨pa, hreadsa, qa, hqa, hmeana⟩ := iha harg hwholea
    obtain ⟨r, t, hr, ht, happ⟩ := hreadsf.exists_app hreadsa
    rw [← Phrase.framed_resolve (some Level.app), hr] at hqf
    rw [← Phrase.framed_resolve (some 0), ht] at hqa
    refine ⟨_, happ, .app qf qa, ?_, ?_⟩
    · exact Option.bind_eq_some_iff.2 ⟨qf, hqf, Option.bind_eq_some_iff.2 ⟨qa, hqa, rfl⟩⟩
    · rw [Plain.unnamed, Plain.unnamed, hmeanf, hmeana]

namespace Printer

/-- Some run prints the text for a term and leaves nothing out. -/
def PrintsWhole (limit : Int) (context : List String) (e : Term) (max : Option Int)
    (text : String) : Prop :=
  ∃ desk desk' : Desk, ((standard limit).format context e max).runAt desk = (.ok text, desk') ∧
    desk'.skips = desk.skips

/-- What is printed whole is the text of a sketch that leaves nothing out. -/
theorem printsWhole_iff {limit : Int} {context : List String} {e : Term} {max : Option Int}
    {text : String} : PrintsWhole limit context e max text ↔ ∃ sketch,
      (standard limit).sketch context limit e = .ok sketch ∧ sketch.skips 0 = [] ∧
        text = sketch.text "λ" max := by
  constructor
  · rintro ⟨desk, desk', hrun, hskips⟩
    obtain ⟨sketch, hsketch, htext, hleft⟩ := format_eq_ok (steady_standard limit) hrun
    have hlist : text.toList = Mark.chars (sketch.marks "λ" max) := htext
    refine ⟨sketch, hsketch, ?_, ?_⟩
    · rw [hskips] at hleft
      simpa using hleft.symm
    · rw [Sketch.text, ← hlist, String.ofList_toList]
  · rintro ⟨sketch, hsketch, hwhole, rfl⟩
    obtain ⟨desk', hrun, hskips⟩ :=
      runAt_format (steady_standard limit) hsketch max (.blank limit)
    refine ⟨.blank limit, desk', hrun, ?_⟩
    rw [hskips, hwhole]
    exact Array.append_empty

/-- The text of a term that is printed whole has one phrase, which is resolved to its meaning. -/
theorem PrintsWhole.exists_phrase {limit : Int} {context : List String} {e : Term}
    {max : Option Int} {text : String} (h : PrintsWhole limit context e max text)
    (hcontext : context.Nodup) (hnames : ∀ name ∈ context, Name.Proper name) (he : e.Regular)
    (hhints : ∀ hint ∈ e.hints, Name.Proper hint) :
    ∃ p : Phrase, p.tokens = Token.ofText text ∧
      ∃ q, p.resolve context = some q ∧ q.unnamed = e.meaning.unnamed := by
  obtain ⟨sketch, hsketch, hwhole, rfl⟩ := printsWhole_iff.1 h
  have hshows := sketch_shows_of_nodup Name.Proper
    (fun hint name hgood hcounted => ⟨hgood.1.counted hcounted, hcounted.ne_placeholder⟩)
    hsketch he hcontext hnames hhints
  obtain ⟨p, hreads, q, hq, hmean⟩ := hshows.exists_readsAs hwhole
  rw [Binder.names_ofContext] at hq
  exact ⟨p.framed max, (hreads.ofText_text max).symm, q, by rwa [Phrase.framed_resolve], hmean⟩

/-- **Printed text reads back as the same term.** Let the names of the context be different from
each other, and proper, and let `e` be regular with proper hints. If the text of `e` is printed with
nothing left out, then it is the text of exactly one phrase, and that phrase is resolved in the
context to what `e` comes to. So another such term with the same text in the same context comes to
the same. -/
theorem format_resolves {limit : Int} {context : List String} {e : Term} {max : Option Int}
    {text : String} (hcontext : context.Nodup) (hnames : ∀ name ∈ context, Name.Proper name)
    (he : e.Regular) (hhints : ∀ hint ∈ e.hints, Name.Proper hint)
    (h : PrintsWhole limit context e max text) :
    (∃ p : Phrase, p.tokens = Token.ofText text ∧
      (∀ p' : Phrase, p'.tokens = Token.ofText text → p' = p) ∧
      ∃ q, p.resolve context = some q ∧ e.ComesTo q) ∧
    ∀ (limit' : Int) (e' : Term) (max' : Option Int), e'.Regular →
      (∀ hint ∈ e'.hints, Name.Proper hint) → PrintsWhole limit' context e' max' text →
      ∀ m, e.ComesTo m ↔ e'.ComesTo m := by
  obtain ⟨p, hp, q, hq, hmean⟩ := h.exists_phrase hcontext hnames he hhints
  refine ⟨⟨p, hp, ?_, q, hq, (Term.comesTo_iff he).2 hmean.symm⟩, ?_⟩
  · intro p' hp'
    exact Phrase.tokens_injective (hp'.trans hp.symm)
  · intro limit' e' max' he' hhints' h' m
    obtain ⟨p', hp', q', hq', hmean'⟩ := h'.exists_phrase hcontext hnames he' hhints'
    rw [Phrase.tokens_injective (hp'.trans hp.symm), hq] at hq'
    cases hq'
    rw [Term.comesTo_iff he, Term.comesTo_iff he', ← hmean, ← hmean']

/-- In `λ f. [shift 1] λ x. 1 0`, the substitution that waits below the first binder hides the
second one. Both are printed as one binder list, the unused one by the placeholder, and in
parentheses where only an atom is allowed. -/
theorem format_resolves_hidden_run :
    let body := Term.app none (.var none 1) (.var none 0)
    let e := Term.lam none "f" (.pending none (.shift 1) (.lam none "x" body))
    ["y"].Nodup ∧ (∀ name ∈ ["y"], Name.Proper name) ∧ e.Regular ∧
      (∀ hint ∈ e.hints, Name.Proper hint) ∧
      PrintsWhole 200 ["y"] e (some 0) "(λ _ x . y x)" ∧
      ∃ (p : Phrase) (q : Plain), p.tokens = Token.ofText "(λ _ x . y x)" ∧
        p.resolve ["y"] = some q ∧ e.ComesTo q := by
  intro body e
  let s := Subst.dot (.var none 0) (.shift 2)
  let inner := Term.app none (.pending none s (.var none 1)) (.pending none s (.var none 0))
  have hrun : (Term.pending none (.shift 1) (.lam none "x" body)).run = .ok (["x"], inner) := by
    have hlam : (Term.pending none (.shift 1) (.lam none "x" body)).expose =
        .ok (.lam none "x" (.pending none s body)) := by
      simp only [body, s]
      cbv
    have hinner : (Term.pending none s body).expose = .ok inner := by
      simp only [body, inner, s]
      cbv
    have hbelow : (Term.pending none s body).run = .ok ([], inner) := by rw [Term.run, hinner]
    rw [Term.run, hlam]
    exact Failure.bind_eq_ok.2 ⟨_, hbelow, rfl⟩
  have hreg : inner.Regular := by decide
  have hnames : (standard 200).nameBinders ["y"] inner [] [] ["x", "f"] =
      ⟨[("x", ["y"])], .ok [⟨"x", true⟩, ⟨"_", false⟩]⟩ := by
    have hfirst : (standard 200).nameFor [] true ("x", ["y"]) = .ok "x" := rfl
    have hsecond : (standard 200).nameFor [("x", ["y"])] false ("f", ["y", "x"]) = .ok "_" := rfl
    have hused : inner.occurs (([] : List Binder).length : Int) = .ok true :=
      Term.occurs_regular hreg 0
    have hunused : inner.occurs (([⟨"x", true⟩] : List Binder).length : Int) = .ok false :=
      Term.occurs_regular hreg 1
    have hrest : (standard 200).nameBinders ["y"] inner [("x", ["y"])] [⟨"x", true⟩] ["f"] =
        ⟨[], .ok [⟨"x", true⟩, ⟨"_", false⟩]⟩ := nameBinders_cons hunused hsecond []
    exact (nameBinders_cons hused hfirst ["f"]).trans (congrArg (Naming.after · _) hrest)
  have hfn : (standard 200).trace ["x", "_", "y"] 197 [("x", ["y"])]
      (.pending none s (.var none 1)) = .var 2 "y" := by
    have hforce : (Term.var none 1).force s = .ok (.var none 2) := by
      simp only [s]
      cbv
    have hvar : (standard 200).trace ["x", "_", "y"] 197 [("x", ["y"])] (.var none 2) =
        .var 2 "y" := trace_var (by decide) rfl _ none
    exact (trace_pending (by decide) hforce _ none).trans hvar
  have harg : (standard 200).trace ["x", "_", "y"] 197 [("x", ["y"])]
      (.pending none s (.var none 0)) = .var 0 "x" := by
    have hforce : (Term.var none 0).force s = .ok (.var none 0) := by
      simp only [s]
      cbv
    have hvar : (standard 200).trace ["x", "_", "y"] 197 [("x", ["y"])] (.var none 0) =
        .var 0 "x" := trace_var (by decide) rfl _ none
    exact (trace_pending (by decide) hforce _ none).trans hvar
  have hbelow : (standard 200).trace ["x", "_", "y"] 198 [("x", ["y"])] inner =
      .app (.var 2 "y") (.var 0 "x") := trace_app (by decide) hfn harg none
  have htrace : (standard 200).trace ["y"] 200 [] e =
      .lam [("x", ["y"])] [⟨"x", true⟩, ⟨"_", false⟩] (.app (.var 2 "y") (.var 0 "x")) := by
    refine trace_lam (by decide) hrun hnames ?_ none
    exact hbelow
  have hsketch : (standard 200).sketch ["y"] 200 e =
      .ok (.lam [⟨"x", true⟩, ⟨"_", false⟩] (.app (.var 2 "y") (.var 0 "x"))) := by
    rw [Printer.sketch, htrace]
    rfl
  obtain ⟨desk', hformat, hskips⟩ :=
    runAt_format (steady_standard 200) hsketch (some 0) (.blank 200)
  have hwhole : PrintsWhole 200 ["y"] e (some 0) "(λ _ x . y x)" :=
    ⟨.blank 200, desk', hformat, hskips⟩
  have hproper : Name.Proper "x" ∧ Name.Proper "y" ∧ Name.Proper "f" := by
    refine ⟨⟨⟨?_, ?_, ?_, ?_⟩, ?_⟩, ⟨⟨?_, ?_, ?_, ?_⟩, ?_⟩, ⟨?_, ?_, ?_, ?_⟩, ?_⟩ <;>
      simp [Token.isSeparator]
  have hcontext : ∀ name ∈ ["y"], Name.Proper name := by simp [hproper]
  have hhints : ∀ hint ∈ e.hints, Name.Proper hint := by
    simp [e, body, Term.hints, Subst.hints, hproper]
  refine ⟨by decide, hcontext, by decide, hhints, hwhole, ?_⟩
  obtain ⟨⟨p, hp, -, q, hq, hcomes⟩, -⟩ :=
    format_resolves (by decide) hcontext (by decide : e.Regular) hhints hwhole
  exact ⟨p, q, hp, hq, hcomes⟩

end Printer

end Nameless
