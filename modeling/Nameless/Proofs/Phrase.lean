import Nameless.Proofs.Plain

/-!
# The grammar of printed terms

Printed terms are read in the usual way. A text is a list of tokens: parentheses stand for
themselves, spaces separate, and whatever is between is a word. The words `λ` and `.` are symbols,
all others are names. Three classes of phrases make up the grammar:

* a **phrase** is a row of applications, or a binder list with a phrase below it;
* a **row** is an atom, or a row followed by an atom, so applications group to the left;
* an **atom** is a name, or a phrase in parentheses.

The trees of phrases are the derivations of the grammar, and `tokens` gives what they derive.

* **The grammar is unambiguous** (`Phrase.tokens_injective`): different phrases have different
  tokens. Atoms end by themselves; a row ends where no further atom can begin.
* A phrase is **resolved** in a list of names, innermost first: every name means its first position
  (`Phrase.resolve`).
-/

namespace Nameless

/-! ## Tokens -/

/-- What a text is read as. -/
inductive Token where
  | opening
  | closing
  | lambda
  | dot
  | name (s : String)
deriving DecidableEq, Repr

namespace Token

/-- The token of a word. -/
def ofWord (word : List Char) : Token :=
  if word = ['λ'] then lambda else if word = ['.'] then dot else name (String.ofList word)

/-- The tokens of a word that has just ended. There may be none. -/
def flush (word : List Char) : List Token := if word = [] then [] else [ofWord word]

/-- Whether a character ends a word. -/
def isSeparator (c : Char) : Bool := c == ' ' || c == '(' || c == ')'

/-- The tokens of a text after the beginning of a word. -/
def scan (word : List Char) : List Char → List Token
  | [] => flush word
  | c :: rest =>
    if c = ' ' then flush word ++ scan [] rest
    else if c = '(' then flush word ++ opening :: scan [] rest
    else if c = ')' then flush word ++ closing :: scan [] rest
    else scan (word ++ [c]) rest

/-- The tokens of a text. -/
def ofText (text : String) : List Token := scan [] text.toList

/-- A text in which no word goes on from what is before it. -/
def Delimited (rest : List Char) : Prop := ∀ c ∈ rest.head?, isSeparator c = true

/-- Characters without a separator go on with the word. -/
theorem scan_append {word chars : List Char} (h : ∀ c ∈ chars, isSeparator c = false)
    (rest : List Char) : scan word (chars ++ rest) = scan (word ++ chars) rest := by
  induction chars generalizing word with
  | nil => rw [List.nil_append, List.append_nil]
  | cons c chars ih =>
    have hc := h c List.mem_cons_self
    simp only [isSeparator, Bool.or_eq_false_iff, beq_eq_false_iff_ne] at hc
    rw [List.cons_append, scan, if_neg hc.1.1, if_neg hc.1.2, if_neg hc.2,
      ih fun c' hc' => h c' (List.mem_cons_of_mem c hc'), List.append_assoc]
    rfl

/-- A word ends where the text is delimited. -/
theorem scan_of_delimited {rest : List Char} (h : Delimited rest) (word : List Char) :
    scan word rest = flush word ++ scan [] rest := by
  cases rest with
  | nil => simp [scan, flush]
  | cons c rest =>
    have hc : isSeparator c = true := h c rfl
    simp only [isSeparator, Bool.or_eq_true, beq_iff_eq] at hc
    rcases hc with (rfl | rfl) | rfl <;> simp [scan, flush]

/-- The characters read as the tokens, wherever a delimited text follows. -/
def Spells (chars : List Char) (tokens : List Token) : Prop :=
  ∀ rest, Delimited rest → scan [] (chars ++ rest) = tokens ++ scan [] rest

namespace Spells

variable {chars chars' : List Char} {tokens tokens' : List Token}

/-- Characters without separators spell one word. -/
theorem word {word : List Char} (hne : word ≠ []) (h : ∀ c ∈ word, isSeparator c = false) :
    Spells word [ofWord word] := by
  intro rest hrest
  rw [scan_append h, List.nil_append, scan_of_delimited hrest, flush, if_neg hne]

/-- A space between two texts separates their tokens. -/
theorem spaced (h : Spells chars tokens) (h' : Spells chars' tokens') :
    Spells (chars ++ ' ' :: chars') (tokens ++ tokens') := by
  intro rest hrest
  have hspace : scan [] (' ' :: (chars' ++ rest)) = scan [] (chars' ++ rest) := rfl
  rw [List.append_assoc, List.cons_append, h _ (by simp [Delimited, isSeparator]), hspace,
    h' rest hrest, List.append_assoc]

/-- Parentheses need no space. -/
theorem paren (h : Spells chars tokens) :
    Spells ('(' :: (chars ++ [')'])) (opening :: (tokens ++ [closing])) := by
  intro rest hrest
  have hopen : scan [] ('(' :: (chars ++ ')' :: rest)) =
      opening :: scan [] (chars ++ ')' :: rest) := rfl
  have hclose : scan [] (')' :: rest) = closing :: scan [] rest := rfl
  rw [List.cons_append, List.append_assoc, List.singleton_append, hopen,
    h _ (by simp [Delimited, isSeparator]), hclose, List.cons_append, List.append_assoc,
    List.singleton_append]

/-- What is spelled is what a whole text is read as. -/
theorem ofText {text : String} (h : Spells text.toList tokens) : ofText text = tokens := by
  have hnil := h [] (by simp [Delimited])
  rwa [List.append_nil, scan, flush, if_pos rfl, List.append_nil] at hnil

end Spells

end Token

/-! ## Phrases -/

mutual

/-- A whole term: a row of applications, or a binder list over a phrase. -/
inductive Phrase where
  | row (r : Row)
  | binders (first : String) (others : List String) (below : Phrase)

/-- Applications, grouped to the left. -/
inductive Row where
  | one (t : Atom)
  | snoc (r : Row) (t : Atom)

/-- A name, or a phrase in parentheses. -/
inductive Atom where
  | name (s : String)
  | paren (p : Phrase)

end

mutual

/-- The tokens of a phrase. -/
def Phrase.tokens : Phrase → List Token
  | .row r => r.tokens
  | .binders first others below =>
    .lambda :: .name first :: (others.map .name ++ .dot :: below.tokens)

@[inherit_doc Phrase.tokens]
def Row.tokens : Row → List Token
  | .one t => t.tokens
  | .snoc r t => r.tokens ++ t.tokens

@[inherit_doc Phrase.tokens]
def Atom.tokens : Atom → List Token
  | .name s => [.name s]
  | .paren p => .opening :: (p.tokens ++ [.closing])

end

mutual

/-- The plain term that a phrase stands for, where the names in scope are given innermost first. It
fails at a name that is not in scope. -/
def Phrase.resolve (scope : List String) : Phrase → Option Plain
  | .row r => r.resolve scope
  | .binders first others below =>
    (below.resolve ((first :: others).reverse ++ scope)).map (Plain.lams (first :: others))

@[inherit_doc Phrase.resolve]
def Row.resolve (scope : List String) : Row → Option Plain
  | .one t => t.resolve scope
  | .snoc r t => do
    let fn ← r.resolve scope
    let arg ← t.resolve scope
    return .app fn arg

@[inherit_doc Phrase.resolve]
def Atom.resolve (scope : List String) : Atom → Option Plain
  | .name s => (scope.idxOf? s).map .var
  | .paren p => p.resolve scope

end

/-! ## Unambiguity -/

/-- The atoms of a row, from left to right. -/
def Row.atoms : Row → List Atom
  | one t => [t]
  | snoc r t => r.atoms ++ [t]

/-- A row has at least one atom. -/
theorem Row.atoms_ne_nil (r : Row) : r.atoms ≠ [] := by
  cases r with
  | one t => exact List.cons_ne_nil _ _
  | snoc r t => exact List.append_ne_nil_of_right_ne_nil _ (List.cons_ne_nil _ _)

/-- The tokens of a row are those of its atoms, in order. -/
theorem Row.tokens_eq : (r : Row) → r.tokens = r.atoms.flatMap Atom.tokens
  | .one t => by rw [Row.tokens, Row.atoms, List.flatMap_singleton]
  | .snoc r t => by
    rw [Row.tokens, Row.atoms, List.flatMap_append, List.flatMap_singleton, Row.tokens_eq r]

/-- A row is told by its atoms. -/
theorem Row.atoms_injective : {r r' : Row} → r.atoms = r'.atoms → r = r'
  | .one t, .one t', h => by rw [List.singleton_inj.1 h]
  | .one t, .snoc r' t', h => by
    have h : [] ++ [t] = r'.atoms ++ [t'] := h
    exact absurd (List.append_inj' h rfl).1.symm r'.atoms_ne_nil
  | .snoc r t, .one t', h => by
    have h : r.atoms ++ [t] = [] ++ [t'] := h
    exact absurd (List.append_inj' h rfl).1 r.atoms_ne_nil
  | .snoc r t, .snoc r' t', h => by
    obtain ⟨hrow, hatom⟩ := List.append_inj' h rfl
    rw [Row.atoms_injective hrow, List.singleton_inj.1 hatom]

/-- An atom begins with a name or an opening parenthesis. -/
theorem Atom.exists_tokens_eq_cons (t : Atom) :
    ∃ c rest, t.tokens = c :: rest ∧ c ≠ .closing ∧ c ≠ .lambda := by
  cases t with
  | name s => exact ⟨_, _, rfl, by simp, by simp⟩
  | paren p => exact ⟨_, _, rfl, by simp, by simp⟩

/-- No phrase goes on here: this is the end, or a closing parenthesis. -/
def Token.Stops (rest : List Token) : Prop := ∀ c ∈ rest.head?, c = closing

/-- A phrase may stop at the end of the text. -/
@[simp] theorem Token.stops_nil : Stops [] := by simp [Stops]

/-- A phrase may stop before a closing parenthesis. -/
@[simp] theorem Token.stops_closing (rest : List Token) : Stops (closing :: rest) := by
  simp [Stops]

/-- Where no phrase goes on, no atom begins. -/
theorem Token.Stops.ne_atom {rest : List Token} (h : Stops rest) (t : Atom) (tokens : List Token) :
    rest ≠ t.tokens ++ tokens := by
  obtain ⟨c, others, ht, hc, -⟩ := t.exists_tokens_eq_cons
  rintro rfl
  rw [ht] at h
  exact hc (h c rfl)

/-- The atoms are found at the front of the tokens in one way only, where no phrase goes on. -/
def Token.Parts (ts : List Atom) (rest : List Token) : Prop :=
  ∀ ⦃ts' rest'⦄, Stops rest' → ts.flatMap Atom.tokens ++ rest = ts'.flatMap Atom.tokens ++ rest' →
    ts = ts' ∧ rest = rest'

/-- No atoms can be read where a phrase stops. -/
theorem Token.parts_nil {rest : List Token} (h : Stops rest) : Parts [] rest := by
  intro ts' rest' _ heq
  cases ts' with
  | nil => exact ⟨rfl, heq⟩
  | cons t' ts' =>
    rw [List.flatMap_cons, List.append_assoc] at heq
    exact absurd heq (h.ne_atom t' _)

/-- If the first atom can be told from what follows, and the others can, all can. -/
theorem Token.Parts.cons {t : Atom} {ts : List Atom} {rest : List Token} (h : Parts ts rest)
    (ht : ∀ ⦃t' rest rest'⦄, t.tokens ++ rest = t'.tokens ++ rest' → t = t' ∧ rest = rest') :
    Parts (t :: ts) rest := by
  intro ts' rest' hrest' heq
  rw [List.flatMap_cons, List.append_assoc] at heq
  cases ts' with
  | nil => exact absurd heq.symm (hrest'.ne_atom t _)
  | cons t' ts' =>
    rw [List.flatMap_cons, List.append_assoc] at heq
    obtain ⟨rfl, hothers⟩ := ht heq
    obtain ⟨rfl, rfl⟩ := h hrest' hothers
    exact ⟨rfl, rfl⟩

/-- The names of a binder list end at the dot. -/
theorem Token.names_dot_inj {names names' : List String} {rest rest' : List Token}
    (h : names.map name ++ dot :: rest = names'.map name ++ dot :: rest') :
    names = names' ∧ rest = rest' := by
  induction names generalizing names' with
  | nil =>
    cases names' with
    | nil => exact ⟨rfl, (List.cons.inj h).2⟩
    | cons s names' => cases (List.cons.inj h).1
  | cons s names ih =>
    cases names' with
    | nil => cases (List.cons.inj h).1
    | cons s' names' =>
      obtain ⟨hs, h⟩ := List.cons.inj h
      obtain ⟨rfl, rfl⟩ := ih h
      cases hs
      exact ⟨rfl, rfl⟩

/-- A row does not begin like a binder list. -/
theorem Row.tokens_append_ne_lambda (r : Row) (rest rest' : List Token) :
    r.tokens ++ rest ≠ .lambda :: rest' := by
  rw [Row.tokens_eq]
  obtain ⟨t, ts, hr⟩ := List.exists_cons_of_ne_nil r.atoms_ne_nil
  obtain ⟨c, others, ht, -, hc⟩ := t.exists_tokens_eq_cons
  rw [hr, List.flatMap_cons, ht]
  intro h
  exact hc (List.cons.inj h).1

mutual

/-- A phrase is found at the front of the tokens in one way only, if it ends there. -/
theorem Phrase.tokens_append_inj : (p : Phrase) → ⦃p' : Phrase⦄ → ⦃rest rest' : List Token⦄ →
    Token.Stops rest → Token.Stops rest' → p.tokens ++ rest = p'.tokens ++ rest' →
    p = p' ∧ rest = rest'
  | .row r, .row r', rest, rest', hrest, hrest', h => by
    rw [Phrase.tokens, Phrase.tokens, r'.tokens_eq] at h
    obtain ⟨hatoms, rfl⟩ := r.parts (Token.parts_nil hrest) hrest' h
    rw [List.append_nil] at hatoms
    rw [Row.atoms_injective hatoms]
    exact ⟨rfl, rfl⟩
  | .row r, .binders _ _ _, _, _, _, _, h => absurd h (r.tokens_append_ne_lambda _ _)
  | .binders _ _ _, .row r', _, _, _, _, h => absurd h.symm (r'.tokens_append_ne_lambda _ _)
  | .binders first others below, .binders first' others' below', rest, rest', hrest, hrest', h => by
    simp only [Phrase.tokens, List.cons_append, List.append_assoc, List.cons.injEq,
      Token.name.injEq, true_and] at h
    obtain ⟨rfl, hothers⟩ := h
    obtain ⟨rfl, hbelow⟩ := Token.names_dot_inj hothers
    obtain ⟨rfl, rfl⟩ := below.tokens_append_inj hrest hrest' hbelow
    exact ⟨rfl, rfl⟩

/-- A row is found at the front of the tokens in one way only. What follows it is given as atoms of
which the same is known, so that the induction can take the last atom off the row. -/
theorem Row.parts : (r : Row) → ⦃ts : List Atom⦄ → ⦃rest : List Token⦄ → Token.Parts ts rest →
    ⦃ts' : List Atom⦄ → ⦃rest' : List Token⦄ → Token.Stops rest' →
    r.tokens ++ (ts.flatMap Atom.tokens ++ rest) = ts'.flatMap Atom.tokens ++ rest' →
    r.atoms ++ ts = ts' ∧ rest = rest'
  | .one t, ts, rest, hts, ts', rest', hrest', h => by
    have hone := hts.cons t.tokens_append_inj
    refine hone hrest' ?_
    rw [List.flatMap_cons, List.append_assoc]
    exact h
  | .snoc r t, ts, rest, hts, ts', rest', hrest', h => by
    have hone := hts.cons t.tokens_append_inj
    rw [Row.atoms, List.append_assoc]
    refine r.parts hone hrest' ?_
    rw [Row.tokens, List.append_assoc] at h
    rw [List.flatMap_cons, List.append_assoc]
    exact h

/-- An atom is found at the front of the tokens in one way only. -/
theorem Atom.tokens_append_inj : (t : Atom) → ⦃t' : Atom⦄ → ⦃rest rest' : List Token⦄ →
    t.tokens ++ rest = t'.tokens ++ rest' → t = t' ∧ rest = rest'
  | .name s, .name s', rest, rest', h => by
    obtain ⟨hs, hrest⟩ := List.cons.inj h
    cases hs
    exact ⟨rfl, hrest⟩
  | .name _, .paren _, _, _, h => by cases (List.cons.inj h).1
  | .paren _, .name _, _, _, h => by cases (List.cons.inj h).1
  | .paren p, .paren p', rest, rest', h => by
    simp only [Atom.tokens, List.cons_append, List.append_assoc, List.cons.injEq, true_and] at h
    obtain ⟨rfl, hrest⟩ := p.tokens_append_inj (Token.stops_closing _) (Token.stops_closing _) h
    exact ⟨rfl, (List.cons.inj hrest).2⟩

end

/-- **The grammar is unambiguous**: phrases with the same tokens are the same. -/
theorem Phrase.tokens_injective {p p' : Phrase} (h : p.tokens = p'.tokens) : p = p' := by
  refine (p.tokens_append_inj Token.stops_nil Token.stops_nil ?_).1
  rw [List.append_nil, List.append_nil, h]

end Nameless
