/-
# The query in the search box

`ParsedQuery::parse` of `search_query.rs`: the text is split on whitespace outside quotes, and each token
is a filter, or text.  A query of nothing but `has:attachment`, or of empty quotes, narrows nothing
(`ParsedQuery.isEmpty`).

A query can be written so that it is parsed again: `render` writes each term after its key and in quotes,
and `parse_render` says that `parse` then returns the query, for every query without an empty term and
without a text that would be taken for a filter.

The way back has three steps, one for each of `parse`'s own: what stands in quotes comes to the token as
it is, whatever it is, and the next blank outside quotes ends the token (`tokenizeFrom_written`); a token
adds what it was written for, as no key begins another (`add_token`); and the parts, added in turn, add up
to the query (`foldl_items`).  The order within each list of terms is kept; between the lists it is that
of `items`.
-/
import Esmail.Cache.Search
import Esmail.Library.Quoting
import Esmail.Library.RustSplit

namespace Esmail

namespace ParsedQuery

open RustText

/-! ## 1. Tokens -/

/-- The loop of `tokenize`, with the token that is read and whether it is in quotes. -/
def tokenizeFrom : List Char → Bool → List Char → List (List Char)
  | current, _, [] => if current = [] then [] else [current]
  | current, inQuotes, c :: rest =>
    if c = '"' then
      match rest with
      | [] => tokenizeFrom current (!inQuotes) []
      | next :: rest =>
        -- a doubled quote inside quotes
        if inQuotes && next = '"' then tokenizeFrom (current ++ ['"']) inQuotes rest
        else tokenizeFrom current (!inQuotes) (next :: rest)
    else if isWhitespace c && !inQuotes then
      if current = [] then tokenizeFrom [] inQuotes rest else current :: tokenizeFrom [] inQuotes rest
    else tokenizeFrom (current ++ [c]) inQuotes rest

/-- `tokenize`. -/
def tokenize (input : List Char) : List (List Char) := tokenizeFrom [] false input

/-- `non_empty_suffix`. -/
def nonEmptySuffix (token key : List Char) : Option String :=
  if key.isPrefixOf token && key.length < token.length then
    some (String.ofList (token.drop key.length))
  else none

/-! ## 2. What each token adds -/

/-- The body of `parse`'s loop. -/
def add (q : ParsedQuery) (token : List Char) : ParsedQuery :=
  match nonEmptySuffix token "from:".toList with
  | some rest => { q with sender := q.sender ++ [rest] }
  | none =>
  match nonEmptySuffix token "to:".toList with
  | some rest => { q with recipient := q.recipient ++ [rest] }
  | none =>
  match nonEmptySuffix token "subject:".toList with
  | some rest => { q with subject := q.subject ++ [rest] }
  | none =>
  match nonEmptySuffix token "body:".toList with
  | some rest => { q with body := q.body ++ [rest] }
  | none =>
  match nonEmptySuffix token "since:".toList with
  | some rest => { q with since := some rest }
  | none =>
  match nonEmptySuffix token "before:".toList with
  | some rest => { q with before := some rest }
  | none =>
  if token = "is:unread".toList then { q with isUnread := true }
  else if token = "has:attachment".toList then { q with hasAttachment := true }
  else if token ≠ [] then { q with text := q.text ++ [String.ofList token] }
  else q

/-- `ParsedQuery::parse`. -/
def parse (input : String) : ParsedQuery := (tokenize input.toList).foldl add {}

/-- A character that is no quote. -/
theorem tokenizeFrom_cons {c : Char} (hquote : c ≠ '"') (current : List Char) (inQuotes : Bool)
    (rest : List Char) :
    tokenizeFrom current inQuotes (c :: rest) =
      if isWhitespace c && !inQuotes then
        if current = [] then tokenizeFrom [] inQuotes rest
        else current :: tokenizeFrom [] inQuotes rest
      else tokenizeFrom (current ++ [c]) inQuotes rest := by
  conv_lhs => unfold tokenizeFrom
  exact if_neg hquote

/-! ## 3. Writing a query -/

/-- A part of a query, as it is typed. -/
inductive Item
  | text (term : String)
  | sender (term : String)
  | recipient (term : String)
  | subject (term : String)
  | body (term : String)
  | since (date : String)
  | before (date : String)
  | unread
  | attachment
  deriving DecidableEq, Repr

/-- The key that a part is written with. -/
def Item.key : Item → String
  | .text _ => ""
  | .sender _ => "from:"
  | .recipient _ => "to:"
  | .subject _ => "subject:"
  | .body _ => "body:"
  | .since _ => "since:"
  | .before _ => "before:"
  | .unread => "is:unread"
  | .attachment => "has:attachment"

/-- The term of a part, if it has one. -/
def Item.term : Item → Option String
  | .text term => some term
  | .sender term => some term
  | .recipient term => some term
  | .subject term => some term
  | .body term => some term
  | .since date => some date
  | .before date => some date
  | .unread => none
  | .attachment => none

/-- A part as it is written: the key, and the term in quotes. -/
def Item.written (item : Item) : List Char :=
  item.key.toList ++ (item.term.map fun term => quote term.toList).getD []

/-- The token that is read of it. -/
def Item.token (item : Item) : List Char :=
  item.key.toList ++ (item.term.map String.toList).getD []

/-- The parts of a query. -/
def items (q : ParsedQuery) : List Item :=
  q.text.map .text ++ q.sender.map .sender ++ q.recipient.map .recipient ++ q.subject.map .subject ++
    q.body.map .body ++ q.since.toList.map .since ++ q.before.toList.map .before ++
    (if q.isUnread then [.unread] else []) ++ if q.hasAttachment then [.attachment] else []

/-- A query written as tokens with a blank between them. -/
def render (q : ParsedQuery) : String := String.ofList (join [' '] (q.items.map Item.written))

/-! ## 4. Reading the tokens -/

/-- A character of a key: no quote, and no blank. -/
def isPlain (c : Char) : Bool := c ≠ '"' && !isWhitespace c

theorem tokenizeFrom_plain {key : List Char} (hkey : key.all isPlain = true) (current rest : List Char) :
    tokenizeFrom current false (key ++ rest) = tokenizeFrom (current ++ key) false rest := by
  induction key generalizing current with
  | nil => rw [List.nil_append, List.append_nil]
  | cons c key ih =>
    rw [List.all_cons, Bool.and_eq_true] at hkey
    have hc : c ≠ '"' ∧ isWhitespace c = false := by simpa [isPlain] using hkey.1
    rw [List.cons_append, tokenizeFrom_cons hc.1, hc.2, Bool.false_and, if_neg Bool.false_ne_true,
      ih hkey.2, List.append_assoc, List.singleton_append]

/-- A quote that begins or ends what is quoted. -/
theorem tokenizeFrom_quote {inQuotes : Bool} {rest : List Char} (h : inQuotes = true → NoQuote rest)
    (current : List Char) :
    tokenizeFrom current inQuotes ('"' :: rest) = tokenizeFrom current (!inQuotes) rest := by
  conv_lhs => unfold tokenizeFrom
  rw [if_pos rfl]
  rcases rest with - | ⟨next, rest⟩
  · rfl
  · have hcond : ¬ (inQuotes && decide (next = '"')) = true := by
      rw [Bool.and_eq_true, decide_eq_true_eq]
      rintro ⟨hin, rfl⟩
      exact h hin rest rfl
    simp only [if_neg hcond]

/-- A doubled quote in quotes. -/
theorem tokenizeFrom_quotes (current rest : List Char) :
    tokenizeFrom current true ('"' :: '"' :: rest) = tokenizeFrom (current ++ ['"']) true rest := by
  conv_lhs => unfold tokenizeFrom
  rfl

/-- What stands in quotes comes to the token as it is. -/
theorem tokenizeFrom_doubled {rest : List Char} (hrest : NoQuote rest) (term current : List Char) :
    tokenizeFrom current true (doubled term ++ '"' :: rest) =
      tokenizeFrom (current ++ term) false rest := by
  induction term generalizing current with
  | nil =>
    rw [List.append_nil]
    exact tokenizeFrom_quote (fun _ => hrest) current
  | cons c term ih =>
    rw [doubled_cons]
    by_cases hc : c = '"'
    · subst hc
      rw [if_pos rfl, List.append_assoc]
      exact (tokenizeFrom_quotes current _).trans ((ih _).trans (by simp))
    · rw [if_neg hc, List.append_assoc, List.singleton_append, tokenizeFrom_cons hc, Bool.not_true,
        Bool.and_false, if_neg Bool.false_ne_true, ih, List.append_assoc, List.singleton_append]

/-- A part is read up to the blank after it. -/
theorem tokenizeFrom_written {item : Item} (hkey : item.key.toList.all isPlain = true)
    {rest : List Char} (hrest : NoQuote rest) (current : List Char) :
    tokenizeFrom current false (item.written ++ rest) =
      tokenizeFrom (current ++ item.token) false rest := by
  rw [Item.written, Item.token, List.append_assoc, tokenizeFrom_plain hkey]
  rcases item.term with - | term
  · rw [Option.map_none, Option.map_none, Option.getD_none, List.append_nil, List.nil_append]
  · rw [Option.map_some, Option.map_some, Option.getD_some, Option.getD_some, quote, List.cons_append,
      List.append_assoc, tokenizeFrom_quote (by simp), Bool.not_false]
    exact (tokenizeFrom_doubled hrest _ _).trans (by rw [List.append_assoc])

/-- Parts with blanks between them are read as their tokens. -/
theorem tokenize_join {items : List Item} (hkeys : ∀ item ∈ items, item.key.toList.all isPlain = true)
    (htokens : ∀ item ∈ items, item.token ≠ []) :
    tokenize (join [' '] (items.map Item.written)) = items.map Item.token := by
  rw [tokenize]
  induction items with
  | nil => rfl
  | cons item items ih =>
    have hkey := hkeys item List.mem_cons_self
    have htoken := htokens item List.mem_cons_self
    have hitems := ih (fun i h => hkeys i (List.mem_cons_of_mem _ h))
      fun i h => htokens i (List.mem_cons_of_mem _ h)
    by_cases hnil : items = []
    · subst hnil
      have hread := tokenizeFrom_written hkey noQuote_nil []
      rw [List.append_nil, List.nil_append] at hread
      rw [List.map_singleton, join, List.intercalate_singleton, hread, tokenizeFrom, if_neg htoken]
      rfl
    · have hblank : NoQuote (' ' :: join [' '] (items.map Item.written)) := noQuote_cons (by decide) _
      rw [List.map_cons, join_cons (by simpa using hnil), List.append_assoc, List.singleton_append,
        tokenizeFrom_written hkey hblank, List.nil_append, tokenizeFrom_cons (by decide),
        if_pos (by decide), if_neg htoken, hitems, List.map_cons]

/-! ## 5. What the tokens add -/

/-- Two keys differ at a place where both have a character. -/
def differ : List Char → List Char → Bool
  | c :: s, c' :: s' => c ≠ c' || differ s s'
  | _, _ => false

theorem not_prefix_of_differ {key key' : List Char} (h : differ key key' = true) (t : List Char) :
    ¬ key'.isPrefixOf (key ++ t) = true := by
  induction key generalizing key' with
  | nil => cases h
  | cons c key ih =>
    rcases key' with - | ⟨c', key'⟩
    · cases h
    · rw [differ, Bool.or_eq_true, decide_eq_true_eq] at h
      rw [List.cons_append, List.isPrefixOf_cons_cons, Bool.and_eq_true, beq_iff_eq]
      rintro ⟨rfl, hpre⟩
      exact ih (h.resolve_left fun hne => hne rfl) hpre

theorem nonEmptySuffix_other {key key' : List Char} (h : differ key key' = true) (t : List Char) :
    nonEmptySuffix (key ++ t) key' = none := by
  have hpre := not_prefix_of_differ h t
  rw [nonEmptySuffix, if_neg]
  rw [Bool.and_eq_true]
  exact fun hboth => hpre hboth.1

theorem nonEmptySuffix_self {key t : List Char} (ht : t ≠ []) :
    nonEmptySuffix (key ++ t) key = some (String.ofList t) := by
  have hpos : key.length < (key ++ t).length := by
    rw [List.length_append]
    have := List.length_pos_of_ne_nil ht
    omega
  rw [nonEmptySuffix, if_pos, List.drop_left]
  rw [Bool.and_eq_true]
  exact ⟨List.isPrefixOf_iff_prefix.mpr ⟨t, rfl⟩, decide_eq_true hpos⟩

/-- A token that `parse` does not take as text: a key with a value, or a flag. -/
def isRecognised (token : List Char) : Bool :=
  (nonEmptySuffix token "from:".toList).isSome || (nonEmptySuffix token "to:".toList).isSome ||
    (nonEmptySuffix token "subject:".toList).isSome || (nonEmptySuffix token "body:".toList).isSome ||
    (nonEmptySuffix token "since:".toList).isSome || (nonEmptySuffix token "before:".toList).isSome ||
    decide (token = "is:unread".toList) || decide (token = "has:attachment".toList)

/-- What a part adds to a query. -/
def addItem (q : ParsedQuery) : Item → ParsedQuery
  | .text term => { q with text := q.text ++ [term] }
  | .sender term => { q with sender := q.sender ++ [term] }
  | .recipient term => { q with recipient := q.recipient ++ [term] }
  | .subject term => { q with subject := q.subject ++ [term] }
  | .body term => { q with body := q.body ++ [term] }
  | .since date => { q with since := some date }
  | .before date => { q with before := some date }
  | .unread => { q with isUnread := true }
  | .attachment => { q with hasAttachment := true }

theorem differ_keys :
    differ "to:".toList "from:".toList = true ∧
    differ "subject:".toList "from:".toList = true ∧ differ "subject:".toList "to:".toList = true ∧
    differ "body:".toList "from:".toList = true ∧ differ "body:".toList "to:".toList = true ∧
    differ "body:".toList "subject:".toList = true ∧
    differ "since:".toList "from:".toList = true ∧ differ "since:".toList "to:".toList = true ∧
    differ "since:".toList "subject:".toList = true ∧ differ "since:".toList "body:".toList = true ∧
    differ "before:".toList "from:".toList = true ∧ differ "before:".toList "to:".toList = true ∧
    differ "before:".toList "subject:".toList = true ∧ differ "before:".toList "body:".toList = true ∧
    differ "before:".toList "since:".toList = true := by
  repeat rw [String.toList_ofList]
  decide

/-- No key begins a flag. -/
theorem differ_flags :
    differ "is:unread".toList "from:".toList = true ∧ differ "is:unread".toList "to:".toList = true ∧
    differ "is:unread".toList "subject:".toList = true ∧
    differ "is:unread".toList "body:".toList = true ∧
    differ "is:unread".toList "since:".toList = true ∧
    differ "is:unread".toList "before:".toList = true ∧
    differ "has:attachment".toList "from:".toList = true ∧
    differ "has:attachment".toList "to:".toList = true ∧
    differ "has:attachment".toList "subject:".toList = true ∧
    differ "has:attachment".toList "body:".toList = true ∧
    differ "has:attachment".toList "since:".toList = true ∧
    differ "has:attachment".toList "before:".toList = true := by
  repeat rw [String.toList_ofList]
  decide

/-- A token of a key and a value is taken by that key. -/
theorem add_field (q : ParsedQuery) {term : String} (hterm : term ≠ "") :
    add q ("from:".toList ++ term.toList) = addItem q (.sender term) ∧
    add q ("to:".toList ++ term.toList) = addItem q (.recipient term) ∧
    add q ("subject:".toList ++ term.toList) = addItem q (.subject term) ∧
    add q ("body:".toList ++ term.toList) = addItem q (.body term) ∧
    add q ("since:".toList ++ term.toList) = addItem q (.since term) ∧
    add q ("before:".toList ++ term.toList) = addItem q (.before term) := by
  have hne : term.toList ≠ [] := by simpa using hterm
  unfold add
  refine ⟨?_, ?_, ?_, ?_, ?_, ?_⟩ <;>
    simp only [nonEmptySuffix_self hne, nonEmptySuffix_other, differ_keys, String.ofList_toList, addItem]

/-- A flag is taken as one. -/
theorem add_flag (q : ParsedQuery) :
    add q ("is:unread".toList ++ []) = addItem q .unread ∧
    add q ("has:attachment".toList ++ []) = addItem q .attachment := by
  have hflags : "has:attachment".toList ≠ "is:unread".toList := fun h =>
    absurd (String.toList_inj.mp h) (by decide)
  have hnone : ∀ {flag key : List Char}, differ flag key = true → nonEmptySuffix flag key = none := by
    intro flag key h
    have hother := nonEmptySuffix_other h []
    rwa [List.append_nil] at hother
  rw [List.append_nil, List.append_nil]
  unfold add
  constructor <;> simp only [hnone, differ_flags, if_neg hflags, if_true, addItem]

/-- What is not recognised is text. -/
theorem add_text (q : ParsedQuery) {term : String} (hterm : term ≠ "")
    (htext : isRecognised term.toList = false) : add q term.toList = addItem q (.text term) := by
  have hne : term.toList ≠ [] := by simpa using hterm
  unfold isRecognised at htext
  simp only [Bool.or_eq_false_iff, Option.isSome_eq_false_iff, Option.isNone_iff_eq_none,
    decide_eq_false_iff_not] at htext
  unfold add
  simp only [htext, if_neg, if_pos hne, String.ofList_toList, addItem, not_false_eq_true]

/-- A part of a query that can be written: its term is not empty, and a text is not recognised as
something else. -/
def Item.Writable (item : Item) : Prop :=
  item.term ≠ some "" ∧ ∀ term, item = .text term → isRecognised term.toList = false

theorem add_token (q : ParsedQuery) {item : Item} (h : item.Writable) :
    add q item.token = addItem q item := by
  obtain ⟨hterm, htext⟩ := h
  cases item with
  | text term => exact add_text q (fun he => hterm (by rw [he]; rfl)) (htext term rfl)
  | sender term => exact (add_field q fun he => hterm (by rw [he]; rfl)).1
  | recipient term => exact (add_field q fun he => hterm (by rw [he]; rfl)).2.1
  | subject term => exact (add_field q fun he => hterm (by rw [he]; rfl)).2.2.1
  | body term => exact (add_field q fun he => hterm (by rw [he]; rfl)).2.2.2.1
  | since date => exact (add_field q fun he => hterm (by rw [he]; rfl)).2.2.2.2.1
  | before date => exact (add_field q fun he => hterm (by rw [he]; rfl)).2.2.2.2.2
  | unread => exact (add_flag q).1
  | attachment => exact (add_flag q).2

theorem key_plain (item : Item) : item.key.toList.all isPlain = true := by
  cases item <;> (rw [Item.key]; decide)

theorem token_ne_nil {item : Item} (h : item.Writable) : item.token ≠ [] := by
  obtain ⟨hterm, -⟩ := h
  cases item with
  | text term =>
    intro hnil
    have hempty : term.toList = [] := hnil
    exact hterm (by rw [String.toList_eq_nil_iff.mp hempty]; rfl)
  | _ => simp [Item.token, Item.key]

/-! ## 6. The query again -/

/-- Every term of a query. -/
def allTerms (q : ParsedQuery) : List String :=
  q.text ++ q.sender ++ q.recipient ++ q.subject ++ q.body ++ q.since.toList ++ q.before.toList

/-- Parts with blanks between them add what they stand for, in order. -/
theorem parse_join {items : List Item} (h : ∀ item ∈ items, item.Writable) :
    parse (String.ofList (join [' '] (items.map Item.written))) = items.foldl addItem {} := by
  rw [parse, String.toList_ofList, tokenize_join (fun item _ => key_plain item) fun item hitem =>
    token_ne_nil (h item hitem), List.foldl_map]
  exact List.foldl_ext _ _ _ fun q item hitem => add_token q (h item hitem)

/-- Terms of one kind add up. -/
theorem foldl_map_item (item : String → Item) (put : List String → ParsedQuery → ParsedQuery)
    (hnil : ∀ q, put [] q = q) (hcons : ∀ term l q, put l (addItem q (item term)) = put (term :: l) q) :
    ∀ (l : List String) (q : ParsedQuery), (l.map item).foldl addItem q = put l q
  | [], q => (hnil q).symm
  | term :: l, q => by
    rw [List.map_cons, List.foldl_cons, foldl_map_item item put hnil hcons l, hcons]

/-- The parts of a query add up to it. -/
theorem foldl_items (q : ParsedQuery) : q.items.foldl addItem {} = q := by
  have htext := foldl_map_item .text (fun l q => { q with text := q.text ++ l })
    (by simp) (by simp [addItem])
  have hsender := foldl_map_item .sender (fun l q => { q with sender := q.sender ++ l })
    (by simp) (by simp [addItem])
  have hrecipient := foldl_map_item .recipient (fun l q => { q with recipient := q.recipient ++ l })
    (by simp) (by simp [addItem])
  have hsubject := foldl_map_item .subject (fun l q => { q with subject := q.subject ++ l })
    (by simp) (by simp [addItem])
  have hbody := foldl_map_item .body (fun l q => { q with body := q.body ++ l })
    (by simp) (by simp [addItem])
  obtain ⟨text, sender, recipient, subject, body, since, before, isUnread, hasAttachment⟩ := q
  simp only [items, List.foldl_append, htext, hsender, hrecipient, hsubject, hbody, List.nil_append]
  cases since <;> cases before <;> cases isUnread <;> cases hasAttachment <;> rfl

/-- The terms of the parts are those of the query. -/
theorem mem_items {q : ParsedQuery} {item : Item} (h : item ∈ q.items) :
    (∀ term, item.term = some term → term ∈ q.allTerms) ∧ ∀ term, item = .text term → term ∈ q.text := by
  simp only [items, List.mem_append, List.mem_map, Option.mem_toList, List.mem_ite_nil_right,
    List.mem_singleton] at h
  constructor
  · intro term hterm
    cases item <;> simp_all [Item.term, allTerms]
  · rintro term rfl
    simpa using h

theorem writable_items {q : ParsedQuery} (hterms : ∀ term ∈ q.allTerms, term ≠ "")
    (htext : ∀ term ∈ q.text, isRecognised term.toList = false) : ∀ item ∈ q.items, item.Writable :=
  fun _ hitem => ⟨fun hempty => hterms "" ((mem_items hitem).1 "" hempty) rfl,
    fun term hterm => htext term ((mem_items hitem).2 term hterm)⟩

/-- A query is parsed again from what is written for it: every field, each list of terms in its order.

What cannot be written is an empty term, and a text that begins like a filter; the two hypotheses leave
these out. -/
theorem parse_render (q : ParsedQuery) (hterms : ∀ term ∈ q.allTerms, term ≠ "")
    (htext : ∀ term ∈ q.text, isRecognised term.toList = false) : parse q.render = q := by
  rw [render, parse_join (writable_items hterms htext), foldl_items]

/-- A query with blanks, colons and quotes in its terms. -/
def asked : ParsedQuery :=
  { text := ["say \"hi\"", "re: you"], sender := ["a b"], since := some "2026-01-01", isUnread := true }

theorem parse_render_asked : parse asked.render = asked :=
  parse_render asked (by decide) (by decide)

end ParsedQuery

end Esmail
