/-
# The text of a MATCH expression

What `to_fts_match` writes, as a sentence of a grammar: clauses with AND between them, a clause a
column with a phrase, or one phrase in three columns, a phrase a term in quotes.

`toFtsMatch_reads` is about every query: what is written for it is a sentence, whichever way that is read it
gives the terms of the query, each list in order, and so two queries that are written alike have the same
terms.  No term, whatever is in it, can end its phrase and write a clause of its own.

The argument is that a sentence is read in one way only (`Sentence.unique`): a phrase ends at the first
quote that is not doubled, and a column or a parenthesis at its first character tells which clause begins.
Then it is enough to write the sentence that was meant (`toFtsMatch_eq`) and to read that one
(`readTerms_clausesOf`).

What FTS5 makes of a sentence is not modelled: the index is a parameter of the search (`SearchEngine`).
-/
import Esmail.Cache.Search
import Esmail.Library.Quoting
import Esmail.Library.RustSplit

namespace Esmail.Fts

open RustText

/-! ## 1. The grammar -/

/-- The columns of `messages_fts` that a clause can name. -/
inductive Column
  | subject
  | fromAddr
  | toAddr
  | body
  deriving DecidableEq, Repr

/-- A column as a clause writes it. -/
def Column.name : Column → String
  | .subject => "subject:"
  | .fromAddr => "from_addr:"
  | .toAddr => "to_addr:"
  | .body => "body:"

/-- A term looked for in one column, or in the subject, the sender and the body. -/
inductive Clause
  | field (column : Column) (term : List Char)
  | anyOf (term : List Char)
  deriving DecidableEq, Repr

/-- A phrase: a term in double quotes, the quotes in it doubled. -/
def IsPhrase (phrase term : List Char) : Prop := phrase = quote term

/-- One phrase in three columns. -/
def anyOfText (phrase : List Char) : List Char :=
  "(subject:".toList ++ (phrase ++ (" OR from_addr:".toList ++ (phrase ++
    (" OR body:".toList ++ (phrase ++ ")".toList)))))

inductive IsClause : List Char → Clause → Prop
  | field (column : Column) {phrase term : List Char} (h : IsPhrase phrase term) :
      IsClause (column.name.toList ++ phrase) (.field column term)
  | anyOf {phrase term : List Char} (h : IsPhrase phrase term) :
      IsClause (anyOfText phrase) (.anyOf term)

/-- Clauses with AND between them. -/
inductive Sentence : List Char → List Clause → Prop
  | clause {text : List Char} {c : Clause} (h : IsClause text c) : Sentence text [c]
  | and {text rest : List Char} {c : Clause} {cs : List Clause} (h : IsClause text c)
      (hrest : Sentence rest cs) : Sentence (text ++ (" AND ".toList ++ rest)) (c :: cs)

/-! ## 2. One way to read it -/

/-- The character that a column begins with. -/
def Column.initial : Column → Char
  | .subject => 's'
  | .fromAddr => 'f'
  | .toAddr => 't'
  | .body => 'b'

theorem Column.exists_name (c : Column) : ∃ s, c.name.toList = c.initial :: s := by
  cases c <;> (rw [Column.name, String.toList_ofList]; exact ⟨_, rfl⟩)

/-- Each column begins with a character of its own, -/
theorem Column.name_inj {c c' : Column} {s s' : List Char}
    (h : c.name.toList ++ s = c'.name.toList ++ s') : c = c' := by
  obtain ⟨t, ht⟩ := c.exists_name
  obtain ⟨t', ht'⟩ := c'.exists_name
  rw [ht, ht'] at h
  have hinitial : c.initial = c'.initial := (List.cons.inj h).1
  clear h ht ht'
  revert hinitial
  cases c <;> cases c' <;> decide

/-- and none with a parenthesis. -/
theorem Column.name_ne_anyOf (c : Column) (s s' : List Char) :
    c.name.toList ++ s ≠ "(subject:".toList ++ s' := by
  intro h
  obtain ⟨t, ht⟩ := c.exists_name
  rw [ht, String.toList_ofList] at h
  have hinitial : c.initial = '(' := (List.cons.inj h).1
  revert hinitial
  cases c <;> decide

theorem noQuote_or (s : List Char) : NoQuote (" OR from_addr:".toList ++ s) := by
  rw [String.toList_ofList]
  exact noQuote_cons (by decide) _

theorem noQuote_and (s : List Char) : NoQuote (" AND ".toList ++ s) := by
  rw [String.toList_ofList]
  exact noQuote_cons (by decide) _

theorem nil_ne_and (s : List Char) : [] ≠ " AND ".toList ++ s := by
  rw [String.toList_ofList]
  exact (List.cons_ne_nil _ _).symm

/-- A clause ends where its last phrase does. -/
theorem IsClause.append_inj {text text' rest rest' : List Char} {c c' : Clause} (h : IsClause text c)
    (h' : IsClause text' c') (hrest : NoQuote rest) (hrest' : NoQuote rest')
    (heq : text ++ rest = text' ++ rest') : c = c' ∧ rest = rest' := by
  cases h with
  | field column hphrase =>
    cases h' with
    | field column' hphrase' =>
      rw [List.append_assoc, List.append_assoc] at heq
      obtain rfl := Column.name_inj heq
      rw [hphrase, hphrase', List.append_cancel_left_eq] at heq
      obtain ⟨rfl, hrests⟩ := quote_append_inj hrest hrest' heq
      exact ⟨rfl, hrests⟩
    | anyOf =>
      unfold anyOfText at heq
      rw [List.append_assoc, List.append_assoc] at heq
      exact absurd heq (column.name_ne_anyOf _ _)
  | anyOf hphrase =>
    cases h' with
    | field column' =>
      unfold anyOfText at heq
      rw [List.append_assoc, List.append_assoc column'.name.toList] at heq
      exact absurd heq.symm (column'.name_ne_anyOf _ _)
    | anyOf hphrase' =>
      unfold anyOfText at heq
      simp only [List.append_assoc, List.append_cancel_left_eq] at heq
      rw [hphrase, hphrase'] at heq
      obtain ⟨rfl, hrests⟩ := quote_append_inj (noQuote_or _) (noQuote_or _) heq
      simp only [List.append_cancel_left_eq] at hrests
      exact ⟨rfl, hrests⟩

/-- A sentence is read in one way only. -/
theorem Sentence.unique {text : List Char} {cs cs' : List Clause} (h : Sentence text cs)
    (h' : Sentence text cs') : cs = cs' := by
  -- one clause at a time from the left
  induction h generalizing cs' with
  | @clause text c hclause =>
    generalize htext : text = text' at h'
    cases h' with
    | clause hclause' =>
      obtain ⟨rfl, -⟩ := hclause.append_inj hclause' noQuote_nil noQuote_nil
        ((List.append_nil _).trans (htext.trans (List.append_nil _).symm))
      rfl
    | and hclause' hrest' =>
      obtain ⟨-, hnil⟩ := hclause.append_inj hclause' noQuote_nil (noQuote_and _)
        ((List.append_nil _).trans htext)
      exact absurd hnil (nil_ne_and _)
  | @and text rest c cs hclause hrest ih =>
    generalize htext : text ++ (" AND ".toList ++ rest) = text' at h'
    cases h' with
    | clause hclause' =>
      obtain ⟨-, hnil⟩ := hclause.append_inj hclause' (noQuote_and _) noQuote_nil
        (htext.trans (List.append_nil _).symm)
      exact absurd hnil.symm (nil_ne_and _)
    | and hclause' hrest' =>
      obtain ⟨rfl, hrests⟩ := hclause.append_inj hclause' (noQuote_and _) (noQuote_and _) htext
      rw [List.append_cancel_left_eq] at hrests
      rw [ih (hrests ▸ hrest')]

/-! ## 3. What is written -/

/-- The terms of a query that are searched for in text. -/
structure Terms where
  sender : List String
  recipient : List String
  subject : List String
  body : List String
  text : List String
  deriving DecidableEq, Repr

/-- The terms of a parsed query. -/
def termsOf (q : ParsedQuery) : Terms := ⟨q.sender, q.recipient, q.subject, q.body, q.text⟩

/-- The terms of the clauses of a column. -/
def fieldTerms (column : Column) (cs : List Clause) : List String :=
  cs.filterMap fun
    | .field c term => if c = column then some (String.ofList term) else none
    | .anyOf _ => none

/-- The terms of the clauses of no column. -/
def anyTerms (cs : List Clause) : List String :=
  cs.filterMap fun
    | .field _ _ => none
    | .anyOf term => some (String.ofList term)

/-- The terms that a sentence is read as. -/
def readTerms (cs : List Clause) : Terms :=
  ⟨fieldTerms .fromAddr cs, fieldTerms .toAddr cs, fieldTerms .subject cs, fieldTerms .body cs,
    anyTerms cs⟩

/-- The clauses of a query, in the order in which they are written. -/
def clausesOf (q : ParsedQuery) : List Clause :=
  q.sender.map (fun term => .field .fromAddr term.toList) ++
    q.recipient.map (fun term => .field .toAddr term.toList) ++
    q.subject.map (fun term => .field .subject term.toList) ++
    q.body.map (fun term => .field .body term.toList) ++
    q.text.map fun term => .anyOf term.toList

/-- A clause written out. -/
def clauseText : Clause → List Char
  | .field column term => column.name.toList ++ quote term
  | .anyOf term => anyOfText (quote term)

theorem isClause_clauseText (c : Clause) : IsClause (clauseText c) c := by
  cases c with
  | field column term => exact .field column rfl
  | anyOf term => exact .anyOf rfl

/-- Clauses with AND between them are a sentence. -/
theorem sentence_join {cs : List Clause} (h : cs ≠ []) :
    Sentence (join " AND ".toList (cs.map clauseText)) cs := by
  induction cs with
  | nil => exact absurd rfl h
  | cons c cs ih =>
    by_cases hcs : cs = []
    · subst hcs
      rw [List.map_singleton, join, List.intercalate_singleton]
      exact .clause (isClause_clauseText c)
    · rw [List.map_cons, join_cons (by simpa using hcs), List.append_assoc]
      exact .and (isClause_clauseText c) (ih hcs)

theorem toList_ftsQuote (term : String) : (ftsQuote term).toList = quote term.toList := by
  have hquote : "\"".toList = ['"'] := by rw [String.toList_ofList]
  have hquotes : "\"\"".toList = ['"', '"'] := by rw [String.toList_ofList]
  rw [ftsQuote, String.toList_append, String.toList_append, toList_replace (by simp), hquote, hquotes,
    replace_doubled]
  rfl

/-- A term in a column, as `to_fts_match` formats it. -/
theorem toList_field (column : Column) (term : String) :
    (column.name ++ ftsQuote term).toList = clauseText (.field column term.toList) := by
  rw [String.toList_append, toList_ftsQuote, clauseText]

/-- A term in three columns, as `to_fts_match` formats it. -/
theorem toList_anyOf (term : String) :
    ("(subject:" ++ ftsQuote term ++ " OR from_addr:" ++ ftsQuote term ++ " OR body:" ++
      ftsQuote term ++ ")").toList = clauseText (.anyOf term.toList) := by
  rw [clauseText]
  unfold anyOfText
  simp only [String.toList_append, toList_ftsQuote, List.append_assoc]

/-- The clauses of a query are what `to_fts_match` writes. -/
theorem toFtsMatch_eq (q : ParsedQuery) :
    q.toFtsMatch.map String.toList =
      if q.isFtsEmpty then none else some (join " AND ".toList ((clausesOf q).map clauseText)) := by
  rw [ParsedQuery.toFtsMatch]
  split
  · rfl
  · rw [Option.map_some, String.toList_intercalate, join, clausesOf]
    simp only [List.map_append, List.map_map, Function.comp_def, ← toList_field, ← toList_anyOf,
      Column.name]

theorem readTerms_clausesOf (q : ParsedQuery) : readTerms (clausesOf q) = termsOf q := by
  simp [readTerms, clausesOf, termsOf, fieldTerms, anyTerms, List.filterMap_append, List.filterMap_map]

theorem clausesOf_eq_nil {q : ParsedQuery} : clausesOf q = [] ↔ q.isFtsEmpty = true := by
  simp only [clausesOf, List.append_eq_nil_iff, List.map_eq_nil_iff, ParsedQuery.isFtsEmpty,
    Bool.and_eq_true, List.isEmpty_iff]
  tauto

/-- What is written for a query is a sentence of the grammar, every reading of it gives the query's
terms, each list in order, and so queries of different terms are never written the same. -/
theorem toFtsMatch_reads (q : ParsedQuery) :
    (∀ text, q.toFtsMatch = some text →
      (∃ cs, Sentence text.toList cs) ∧ ∀ cs, Sentence text.toList cs → readTerms cs = termsOf q) ∧
    (q.toFtsMatch = none ↔ termsOf q = ⟨[], [], [], [], []⟩) ∧
    ∀ q' : ParsedQuery, q.toFtsMatch = q'.toFtsMatch → termsOf q = termsOf q' := by
  have hsentence : ∀ (q : ParsedQuery) (text : String), q.toFtsMatch = some text →
      Sentence text.toList (clausesOf q) := by
    intro q text htext
    have heq := toFtsMatch_eq q
    rw [htext] at heq
    split at heq
    · cases heq
    · next hne =>
      rw [Option.map_some, Option.some.injEq] at heq
      rw [heq]
      exact sentence_join fun hnil => hne (clausesOf_eq_nil.mp hnil)
  have hnone : ∀ q : ParsedQuery, q.toFtsMatch = none ↔ termsOf q = ⟨[], [], [], [], []⟩ := by
    intro q
    have hiff : q.toFtsMatch = none ↔ q.isFtsEmpty = true := by
      rw [ParsedQuery.toFtsMatch]
      split <;> simp_all
    rw [hiff, ← clausesOf_eq_nil]
    constructor
    · intro hnil
      rw [← readTerms_clausesOf, hnil]
      rfl
    · intro hterms
      simp only [termsOf, Terms.mk.injEq] at hterms
      simp [clausesOf, hterms]
  refine ⟨fun text htext => ⟨⟨_, hsentence q text htext⟩, fun cs hcs => ?_⟩, hnone q, fun q' heq => ?_⟩
  · rw [hcs.unique (hsentence q text htext), readTerms_clausesOf]
  · rcases htext : q.toFtsMatch with - | text
    · rw [(hnone q).mp htext, (hnone q').mp (heq ▸ htext)]
    · have hclauses := (hsentence q text htext).unique (hsentence q' text (heq ▸ htext))
      rw [← readTerms_clausesOf, hclauses, readTerms_clausesOf]

end Esmail.Fts
