/-
# Pieces of HTML

A program that builds a document out of pieces wants to know of each piece what it reads as, wherever it
stands.  `ReadsAs s evs` says that the piece `s` is read as the events `evs` whatever follows it; a
document is then read piece by piece (`ReadsAs.append`), and a text that is written with `escapeMarkup`
reads as its characters, in a text and in a quoted value alike.
-/
import Esmail.Library.Html

namespace Html

/-- Whatever follows it, the piece is read as these events. -/
def ReadsAs (s : List Char) (evs : List Event) : Prop := ∀ rest, read (s ++ rest) = evs ++ read rest

theorem ReadsAs.nil : ReadsAs [] [] := fun _ => rfl

theorem ReadsAs.append {s t : List Char} {evs evs' : List Event} (hs : ReadsAs s evs)
    (ht : ReadsAs t evs') : ReadsAs (s ++ t) (evs ++ evs') := by
  intro rest
  rw [List.append_assoc, hs, ht, List.append_assoc]

/-- A document that is a piece. -/
theorem ReadsAs.read {s : List Char} {evs : List Event} (h : ReadsAs s evs) : read s = evs := by
  have hall := h []
  rw [List.append_nil] at hall
  exact hall.trans (List.append_nil evs)

/-- A list of pieces. -/
theorem ReadsAs.flatMap {α : Type} {write : α → List Char} {tree : α → List Event} :
    ∀ {xs : List α}, (∀ x ∈ xs, ReadsAs (write x) (tree x)) →
      ReadsAs (xs.flatMap write) (xs.flatMap tree)
  | [], _ => .nil
  | x :: xs, h => by
    rw [List.flatMap_cons, List.flatMap_cons]
    exact (h x List.mem_cons_self).append (ReadsAs.flatMap fun y hy => h y (List.mem_cons_of_mem _ hy))

theorem ReadsAs.event {e : Event} (h : e.WellFormed) : ReadsAs e.serialise [e] :=
  fun rest => read_event rest h

/-- The four characters that mark HTML, as references. -/
def escapeMarkup (c : Char) : List Char :=
  if c = '&' then "&amp;".toList
  else if c = '<' then "&lt;".toList
  else if c = '>' then "&gt;".toList
  else if c = '"' then "&quot;".toList
  else [c]

/-- An escaped character is itself, or the reference to it. -/
theorem escapeMarkup_cases (c : Char) :
    (c ≠ '&' ∧ c ≠ '<' ∧ c ≠ '"' ∧ escapeMarkup c = [c]) ∨
      ∃ p, escapeMarkup c = '&' :: p ∧ ∀ s, referenceAhead (p ++ s) = some (c, p.length) := by
  unfold escapeMarkup
  split
  · next h =>
    subst h
    exact .inr ⟨"amp;".toList, rfl, fun s => by simp [referenceAhead]⟩
  · split
    · next h =>
      subst h
      exact .inr ⟨"lt;".toList, rfl, fun s => by simp [referenceAhead]⟩
    · split
      · next h =>
        subst h
        exact .inr ⟨"gt;".toList, rfl, fun s => by simp [referenceAhead]⟩
      · split
        · next h =>
          subst h
          exact .inr ⟨"quot;".toList, rfl, fun s => by simp [referenceAhead]⟩
        · next hamp hlt hgt hquot => exact .inl ⟨hamp, hlt, hquot, rfl⟩

/-- A character that marks nothing. -/
theorem readsAs_plainChar {c : Char} (hamp : c ≠ '&') (hlt : c ≠ '<') : ReadsAs [c] [.char c] := by
  intro rest
  refine read_of_eats (m := .char c 0) ?_ (by simp) (fun _ _ => rfl) rfl
  exact ⟨.char c 0, by simp [reader, Mode.step, Mode.first, hamp, hlt], rfl⟩

theorem readsAs_escaped (c : Char) : ReadsAs (escapeMarkup c) [.char c] := by
  rcases escapeMarkup_cases c with ⟨hamp, hlt, -, hplain⟩ | ⟨p, hp, href⟩
  · rw [hplain]
    exact readsAs_plainChar hamp hlt
  · intro rest
    rw [hp]
    refine read_of_eats (m := .char c 0) ?_ (by simp) (fun _ _ => rfl) rfl
    refine ⟨.char c p.length, ?_, eats_char c _ p rest rfl⟩
    simp [reader, Mode.step, Mode.first, href]

/-- A text. -/
def chars (s : List Char) : List Event := s.map .char

/-- An escaped text reads as the text. -/
theorem readsAs_text (s : List Char) : ReadsAs (s.flatMap escapeMarkup) (chars s) := by
  have h : ReadsAs (s.flatMap escapeMarkup) (s.flatMap fun c => [.char c]) :=
    ReadsAs.flatMap fun c _ => readsAs_escaped c
  rwa [← List.map_eq_flatMap] at h

/-- A text without marks reads as it is. -/
theorem readsAs_plain {s : List Char} (h : ∀ c ∈ s, c ≠ '&' ∧ c ≠ '<') : ReadsAs s (chars s) := by
  have hall : ReadsAs (s.flatMap fun c => [c]) (s.flatMap fun c => [.char c]) :=
    ReadsAs.flatMap fun c hc => readsAs_plainChar (h c hc).1 (h c hc).2
  rwa [List.flatMap_singleton', ← List.map_eq_flatMap] at hall

/-! ## Quoted values -/

/-- An attribute whose value is written with `escapeMarkup`. -/
def Attr.markup (a : Attr) : List Char :=
  ' ' :: a.name ++ '=' :: '"' :: a.value.flatMap escapeMarkup ++ ['"']

theorem eats_escaped (s : List Char) (tag : Tag) (attr v : List Char) (c : Char) :
    reader.Eats s (.value tag attr (some '"') v 0) (escapeMarkup c)
      (.value tag attr (some '"') (v ++ [c]) 0) := by
  rcases escapeMarkup_cases c with ⟨hamp, -, hquot, hplain⟩ | ⟨p, hp, href⟩
  · rw [hplain]
    exact ⟨_, by simp [reader, Mode.step, Mode.valueStep, hamp, Ne.symm hquot], rfl⟩
  · rw [hp]
    refine ⟨.value tag attr (some '"') (v ++ [c]) p.length, ?_, eats_left s tag attr _ _ p⟩
    simp [reader, Mode.step, Mode.valueStep, href]

theorem eats_markupValue (s : List Char) (tag : Tag) (attr : List Char) : ∀ (cs v : List Char),
    reader.Eats s (.value tag attr (some '"') v 0) (cs.flatMap escapeMarkup)
      (.value tag attr (some '"') (v ++ cs) 0)
  | [], v => by
    rw [List.append_nil]
    rfl
  | c :: cs, v => by
    have ih := eats_markupValue s tag attr cs (v ++ [c])
    rw [List.append_assoc] at ih
    exact (eats_escaped _ tag attr v c).append ih

/-- An attribute, after the name of the tag or after another attribute. -/
theorem eats_markup (s : List Char) (tag : Tag) {a : Attr} (ha : PlainName a.name) {m : Mode}
    (hm : ∀ s, m.step ' ' s = some (.between tag)) :
    reader.Eats s m a.markup (.between (Mode.addAttr tag a.name a.value)) := by
  obtain ⟨name, value⟩ := a
  obtain ⟨⟨c, cs, hname, -⟩, hplain⟩ := ha
  dsimp only at hname hplain
  subst hname
  have hc := isNameChar_of_plain (hplain c List.mem_cons_self)
  have hvalue : reader.Eats s (.value tag (c :: cs) (some '"') [] 0)
      (value.flatMap escapeMarkup ++ ['"']) (.between (Mode.addAttr tag (c :: cs) value)) :=
    (eats_markupValue _ tag (c :: cs) value []).append
      ⟨_, by simp [reader, Mode.step, Mode.valueStep], rfl⟩
  have hrest : reader.Eats s (.attrName tag [c])
      (cs ++ '=' :: '"' :: (value.flatMap escapeMarkup ++ ['"']))
      (.between (Mode.addAttr tag (c :: cs) value)) := by
    refine (eats_attrName _ tag cs [c] fun d hd => hplain d (List.mem_cons_of_mem _ hd)).append ?_
    exact ⟨.beforeValue tag (c :: cs), rfl, .value tag (c :: cs) (some '"') [] 0, rfl, hvalue⟩
  unfold Attr.markup
  rw [List.append_assoc, List.cons_append, List.cons_append]
  refine ⟨.between tag, hm _, .attrName tag [c], ?_, by simpa using hrest⟩
  simp only [reader, Mode.step, nameStep_plain hc, hc.lower]

theorem eats_markups (s : List Char) : ∀ (attrs : List Attr) (tag : Tag),
    (∀ a ∈ attrs, PlainName a.name) → reader.Eats s (.between tag) (attrs.flatMap Attr.markup)
      (.between { tag with attrs := tag.attrs ++ attrs })
  | [], tag, _ => by
    rw [List.append_nil]
    rfl
  | a :: attrs, tag, h => by
    have ih := eats_markups s attrs (Mode.addAttr tag a.name a.value)
      fun b hb => h b (List.mem_cons_of_mem _ hb)
    simp only [Mode.addAttr, List.append_assoc] at ih
    exact (eats_markup _ tag (h a List.mem_cons_self) fun _ => rfl).append ih

/-- An open tag whose values are written with `escapeMarkup`. -/
def markupTag (name : List Char) (attrs : List Attr) : List Char :=
  '<' :: name ++ attrs.flatMap Attr.markup ++ ['>']

theorem readsAs_markupTag {name : List Char} {attrs : List Attr} (hname : PlainName name)
    (hstyle : name ≠ styleName) (hattrs : ∀ a ∈ attrs, PlainName a.name) :
    ReadsAs (markupTag name attrs) [.openTag name attrs] := by
  intro rest
  obtain ⟨⟨c, cs, rfl, hlow, hhigh⟩, hplain⟩ := hname
  have hc := isNameChar_of_plain (hplain c List.mem_cons_self)
  have hletter : isLetter c := by simp [isLetter, hlow, hhigh]
  have hclosed : Mode.closed ⟨false, c :: cs, attrs⟩ = .tagDone ⟨false, c :: cs, attrs⟩ :=
    if_neg fun h => hstyle h.2
  have hcs : ∀ s, reader.Eats s (.name ⟨false, [c], []⟩) cs (.name ⟨false, c :: cs, []⟩) :=
    fun s => eats_name s cs ⟨false, [c], []⟩ fun d hd => hplain d (List.mem_cons_of_mem _ hd)
  have hend : ∀ s, reader.Eats s (.name ⟨false, c :: cs, []⟩)
      (attrs.flatMap Attr.markup ++ ['>']) (.tagDone ⟨false, c :: cs, attrs⟩) := by
    intro s
    rw [← hclosed]
    cases attrs with
    | nil => exact ⟨_, rfl, rfl⟩
    | cons a attrs =>
      rw [List.flatMap_cons, List.append_assoc]
      refine (eats_markup _ _ (hattrs a List.mem_cons_self) fun _ => rfl).append ?_
      refine (eats_markups _ attrs _ fun b hb => hattrs b (List.mem_cons_of_mem _ hb)).append ?_
      exact ⟨_, rfl, rfl⟩
  refine read_of_eats (m := .tagDone ⟨false, c :: cs, attrs⟩) ?_ (by simp [markupTag])
    (fun _ _ => rfl) rfl
  unfold markupTag
  rw [List.append_assoc]
  refine ⟨.opened, ?_, .name ⟨false, [c], []⟩, ?_, (hcs _).append (hend rest)⟩
  · simp [reader, Mode.step, Mode.first, hletter]
  · simp [reader, Mode.step, hc.not_slash, hc.lower]

/-- An element, its tags around what is inside. -/
def element (name : List Char) (attrs : List Attr) (inner : List Event) : List Event :=
  .openTag name attrs :: (inner ++ [.closeTag name])

theorem readsAs_element {name : List Char} {attrs : List Attr} {s : List Char} {inner : List Event}
    (hname : PlainName name) (hstyle : name ≠ styleName) (hattrs : ∀ a ∈ attrs, PlainName a.name)
    (hs : ReadsAs s inner) :
    ReadsAs (markupTag name attrs ++ s ++ closeTagText name) (element name attrs inner) := by
  have hclose : ReadsAs (closeTagText name) [.closeTag name] :=
    ReadsAs.event (e := .closeTag name) ⟨hname, hstyle⟩
  exact ((readsAs_markupTag hname hstyle hattrs).append hs).append hclose

/-- A `style` element with no mark in its text. -/
theorem readsAs_style {css : List Char} (h : '<' ∉ css) :
    ReadsAs (openTagText styleName [] ++ css ++ closeTagText styleName) [.style [] css] :=
  ReadsAs.event (e := .style [] css) ⟨nofun, rawText_of_no_bracket h⟩

/-- What begins with `<!` and a `>` after it, and is no element. -/
theorem readsAs_declaration {s : List Char} (h : '>' ∉ s) : ReadsAs ('<' :: '!' :: s ++ ['>']) [] := by
  intro rest
  have hinside : ∀ (t : List Char), '>' ∉ t → ∀ u, reader.Eats u .bogusComment t .bogusComment := by
    intro t
    induction t with
    | nil => exact fun _ _ => rfl
    | cons c t ih =>
      intro ht u
      simp only [List.mem_cons, not_or] at ht
      exact ⟨.bogusComment, by simp [reader, Mode.step, Ne.symm ht.1], ih ht.2 u⟩
  have heats : reader.Eats rest .start ('<' :: '!' :: s ++ ['>']) .bogusDone := by
    refine ⟨.bogusComment, ?_, ?_⟩
    · simp [reader, Mode.step, Mode.first, isLetter]
    · refine ⟨.bogusComment, by simp [reader, Mode.step], (hinside s h _).append ?_⟩
      exact ⟨.bogusDone, by simp [reader, Mode.step], rfl⟩
  have hlex := Lexer.Eats.lex_eq (L := reader) heats (by simp) (fun _ _ => rfl)
  unfold read
  rw [hlex]
  rfl

end Html
