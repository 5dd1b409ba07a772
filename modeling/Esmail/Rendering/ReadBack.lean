/-
# When a filtered sheet reads clean

A browser parses what `filter_stylesheet` returns.  It reads the sheet that was meant if each piece,
cut out and trimmed, has the tokens it had (`ReadsAlone`), and is over before the glue behind it starts
(`Complete`); the LAST piece need not be over, for all that follows it are the closing brackets of the
sheet.

`filtered_reads_clean` says so of every text and every list of properties that are written plainly: then
what is read is style rules, and media rules of style rules, with declarations of properties on the list,
and no `<`.

A piece that is neither changes what the text behind it means: a value that lost its closing bracket,
or a string that a line break no longer ends, takes the next declarations in, and its own end becomes
a declaration (`filtered_reads_unclean`).

The sheet is printed from data (`CleanSheet.lean`), and the proof reads it from the right: what a part
reads as before ANYTHING (`Whole`, for the parts that are over), and what the last one reads as before
just the glue that follows it (`last_value`, with the brackets left open as a parameter).  Tokens are
compared without the white space between them (the gist), since trimming changes that.

The converse is open: a piece that trimming has changed may still read clean by luck, as a no-break space
at the end of a value.
-/
import Mathlib.Data.List.Infix
import Esmail.Rendering.CleanSheet

namespace Esmail

open RustText Css

variable (allowed : List (List Char))

/-! ## 1. Clean sheets -/

/-- A declaration of an allowed property, or something that is skipped. -/
def CleanItem : RawItem → Prop
  | .declaration name _ => lower name ∈ allowed
  | .atRule _ => False
  | .invalid => True

def CleanStyle : RawRule → Prop
  | .qualified _ block => ∀ b ∈ block, ∀ i ∈ items b, CleanItem allowed i
  | .atRule _ _ _ => False

def CleanRule : RawRule → Prop
  | .qualified prelude block => CleanStyle allowed (.qualified prelude block)
  | .atRule name _ block =>
    lower name = "media".toList ∧ ∀ b ∈ block, ∀ r ∈ rules b, CleanStyle allowed r

/-- Only style rules, and `@media` rules of style rules; every declaration is of an allowed property;
and no `<`. -/
def Clean (s : List Char) : Prop := (∀ r ∈ rules (tokenize s), CleanRule allowed r) ∧ '<' ∉ s

instance (i : RawItem) : Decidable (CleanItem allowed i) :=
  match i with
  | .declaration name _ => inferInstanceAs (Decidable (lower name ∈ allowed))
  | .atRule _ => inferInstanceAs (Decidable False)
  | .invalid => inferInstanceAs (Decidable True)

instance (r : RawRule) : Decidable (CleanStyle allowed r) :=
  match r with
  | .qualified _ none => .isTrue (by simp [CleanStyle])
  | .qualified _ (some content) =>
    decidable_of_iff (∀ i ∈ items content, CleanItem allowed i) (by simp [CleanStyle])
  | .atRule _ _ _ => inferInstanceAs (Decidable False)

instance (r : RawRule) : Decidable (CleanRule allowed r) :=
  match r with
  | .qualified prelude block => inferInstanceAs (Decidable (CleanStyle allowed (.qualified prelude block)))
  | .atRule name _ none => decidable_of_iff (lower name = "media".toList) (by simp [CleanRule])
  | .atRule name _ (some content) =>
    decidable_of_iff (lower name = "media".toList ∧ ∀ r ∈ rules content, CleanStyle allowed r)
      (by simp [CleanRule])

instance (s : List Char) : Decidable (Clean allowed s) := inferInstanceAs (Decidable (_ ∧ _))

/-- Cut out and trimmed, a piece has the tokens it had. -/
def ReadsAlone (ts : List Token) : Prop := reads (consumeText ts) = solid ts

/-- A text is over: its last token does not go on, and every bracket in it is closed. -/
def Complete (s : List Char) : Prop :=
  (∀ t ∈ (tokenize s).getLast?, t.settled = true) ∧ openAfter [] (tokenize s) = []

/-- A property's name is written as one identifier. -/
def PlainProperty (name : List Char) : Prop :=
  tokenize name = [⟨.ident name, name, true⟩] ∧ '<' ∉ name

instance (ts : List Token) : Decidable (ReadsAlone ts) :=
  inferInstanceAs (Decidable (reads (consumeText ts) = solid ts))

instance (s : List Char) : Decidable (Complete s) :=
  inferInstanceAs (Decidable (_ ∧ _))

instance (name : List Char) : Decidable (PlainProperty name) :=
  inferInstanceAs (Decidable (_ ∧ _))

/-! ## 2. What is clean is clean in its gist -/

section Gist

variable {allowed}

theorem cleanItem_gist (i : RawItem) : CleanItem allowed i.gist ↔ CleanItem allowed i := by
  cases i <;> exact Iff.rfl

theorem cleanStyle_gist (r : RawRule) : CleanStyle allowed r.gist ↔ CleanStyle allowed r := by
  cases r with
  | qualified prelude block =>
    cases block with
    | none => simp [RawRule.gist, CleanStyle]
    | some content => simp [RawRule.gist, CleanStyle, items_gist, cleanItem_gist]
  | atRule _ _ _ => exact Iff.rfl

theorem cleanRule_gist (r : RawRule) : CleanRule allowed r.gist ↔ CleanRule allowed r := by
  cases r with
  | qualified prelude block => exact cleanStyle_gist (.qualified prelude block)
  | atRule name prelude block =>
    cases block with
    | none => simp [RawRule.gist, CleanRule]
    | some content =>
      show CleanRule allowed (.atRule name (gist prelude) (some (gist content))) ↔ _
      simp [CleanRule, rules_gist, cleanStyle_gist]

/-- Whether a text reads clean is told by what it reads as. -/
theorem clean_iff_reads (s : List Char) :
    (∀ r ∈ rules (tokenize s), CleanRule allowed r) ↔ ∀ r ∈ rules (bare (reads s)), CleanRule allowed r := by
  show _ ↔ ∀ r ∈ rules (gist (tokenize s)), CleanRule allowed r
  rw [rules_gist]
  simp [cleanRule_gist]

end Gist

/-! ## 3. Blocks of clean items and rules -/

/-- The contents of a declaration block that are clean, and do not end it. -/
structure Declares (ks : List Kind) : Prop where
  items : ∀ i ∈ items (bare ks), CleanItem allowed i
  passes : Passes (· == .punct '}') [] (bare ks)

/-- A list of style rules that are clean, and do not end the block they are in. -/
structure Styles (ks : List Kind) : Prop where
  rules : ∀ r ∈ rules (bare ks), CleanStyle allowed r
  passes : Passes (· == .punct '}') [] (bare ks)

/-- What stands before the block of a style rule. -/
structure Selects (ks : List Kind) : Prop where
  passes : Passes (· == .punct '{') [] (bare ks)
  inside : Passes (· == .punct '}') [] (bare ks)
  closed : openAfter [] (bare ks) = []
  first : ∃ k ls, ks = k :: ls ∧ isBetweenRules k = false ∧ ∀ name, k ≠ .atKeyword name

variable {allowed}

/-- The colon behind a name, and what is open behind it. -/
theorem openAfter_declaration (name : List Char) (ks : List Kind) :
    openAfter [] (bare (.ident name :: .punct ':' :: ks)) = openAfter [] (bare ks) := rfl

theorem passes_declaration {name : List Char} {ks : List Kind} :
    Passes (· == .punct '}') [] (bare (.ident name :: .punct ':' :: ks)) ↔
      Passes (· == .punct '}') [] (bare ks) := by
  rw [bare_cons, bare_cons, passes_cons, passes_cons]
  simp [Kind.nest, Kind.closer]

theorem declares_nil : Declares allowed [] := ⟨by simp [items, itemsFuel], rfl⟩

/-- A declaration that goes to the end of its block. -/
theorem declares_last {name : List Char} {value : List Kind} (hname : lower name ∈ allowed)
    (hend : Passes (· == .punct ';') [] (bare value)) (hblock : Passes (· == .punct '}') [] (bare value)) :
    Declares allowed (.ident name :: .punct ':' :: value) where
  items i hi := by
    rw [bare_cons, bare_cons, items_last rfl rfl hend] at hi
    rw [List.mem_singleton.mp hi]
    exact hname
  passes := passes_declaration.mpr hblock

/-- A declaration, and what is behind its semicolon. -/
theorem declares_cons {name : List Char} {value ks : List Kind} (hname : lower name ∈ allowed)
    (hend : Passes (· == .punct ';') [] (bare value)) (hblock : Passes (· == .punct '}') [] (bare value))
    (hclosed : openAfter [] (bare value) = []) (hks : Declares allowed ks) :
    Declares allowed (.ident name :: .punct ':' :: (value ++ .punct ';' :: ks)) ∧
      openAfter [] (bare (.ident name :: .punct ':' :: (value ++ .punct ';' :: ks))) =
        openAfter [] (bare ks) := by
  refine ⟨⟨fun i hi => ?_, passes_declaration.mpr ?_⟩, ?_⟩
  · rw [bare_cons, bare_cons, bare_append, bare_cons, items_declaration rfl rfl hend hclosed rfl] at hi
    rcases List.mem_cons.mp hi with rfl | hi
    · exact hname
    · exact hks.items i hi
  · rw [bare_append, bare_cons, passes_append, hclosed, passes_cons]
    exact ⟨hblock, by simp, hks.passes⟩
  · rw [openAfter_declaration, bare_append, openAfter_append, hclosed]
    rfl

theorem styles_nil : Styles allowed [] := ⟨by simp [rules, rulesFuel], rfl⟩

/-- What a style rule reads as when its block is the rest, or is closed. -/
theorem rules_selects {sel content tail rest : List Kind} (hsel : Selects sel)
    (hcontent : Declares allowed content) (hcloses : Closes (bare content) (bare tail) (bare rest)) :
    rules (bare (sel ++ .punct '{' :: (content ++ tail))) =
      .qualified (bare sel) (some (bare content)) :: rules (bare rest) := by
  obtain ⟨k, ls, rfl, hfirst, hkeyword⟩ := hsel.first
  rw [bare_append, bare_cons, bare_cons, bare_append]
  exact rules_style hfirst hkeyword hsel.passes hsel.closed rfl hcontent.passes hcloses

theorem cleanStyle_block {sel content : List Kind} (hcontent : Declares allowed content) :
    CleanStyle allowed (.qualified (bare sel) (some (bare content))) := by
  intro b hb
  obtain rfl := Option.mem_some.mp hb
  exact hcontent.items

/-- Behind the bracket of a block. -/
theorem passes_block {sel content : List Kind} (hsel : Selects sel) (hcontent : Declares allowed content) :
    Passes (· == .punct '}') [] (bare (sel ++ .punct '{' :: content)) ∧
      openAfter [] (bare (sel ++ .punct '{' :: content)) = openAfter [] (bare content) ++ ['}'] := by
  obtain ⟨hpasses, hopen⟩ := inside_block hcontent.passes (· == .punct '}')
  rw [bare_append, bare_cons, passes_append, openAfter_append, hsel.closed, passes_cons]
  exact ⟨⟨hsel.inside, by simp, hpasses⟩, hopen⟩

/-- A style rule that the text ends in. -/
theorem styles_last {sel content : List Kind} (hsel : Selects sel) (hcontent : Declares allowed content) :
    Styles allowed (sel ++ .punct '{' :: content) where
  rules r hr := by
    have hcloses : Closes (bare content) (bare []) (bare []) := .inl ⟨rfl, rfl⟩
    have hrules := rules_selects hsel hcontent hcloses
    rw [List.append_nil] at hrules
    rw [hrules] at hr
    rcases List.mem_cons.mp hr with rfl | hr
    · exact cleanStyle_block hcontent
    · exact absurd hr (by simp [rules, rulesFuel])
  passes := (passes_block hsel hcontent).1

/-- A style rule, and the rules behind its block. -/
theorem styles_cons {sel content ks : List Kind} (hsel : Selects sel) (hcontent : Declares allowed content)
    (hclosed : openAfter [] (bare content) = []) (hks : Styles allowed ks) :
    Styles allowed (sel ++ .punct '{' :: (content ++ .punct '}' :: ks)) ∧
      openAfter [] (bare (sel ++ .punct '{' :: (content ++ .punct '}' :: ks))) =
        openAfter [] (bare ks) := by
  obtain ⟨hpasses, hopen⟩ := passes_block hsel hcontent
  have hsplit : bare (sel ++ .punct '{' :: (content ++ .punct '}' :: ks)) =
      bare (sel ++ .punct '{' :: content) ++ bare (.punct '}' :: ks) := by simp
  rw [hclosed] at hopen
  refine ⟨⟨fun r hr => ?_, ?_⟩, ?_⟩
  · rw [rules_selects hsel hcontent (.inr ⟨hclosed, ⟨.punct '}', [], true⟩, rfl, rfl⟩)] at hr
    rcases List.mem_cons.mp hr with rfl | hr
    · exact cleanStyle_block hcontent
    · exact hks.rules r hr
  · rw [hsplit, passes_append, hopen, bare_cons, passes_cons]
    exact ⟨hpasses, by simp, hks.passes⟩
  · rw [hsplit, openAfter_append, hopen]
    rfl

/-- A sheet of clean rules. -/
def Sheet (allowed : List (List Char)) (ks : List Kind) : Prop :=
  ∀ r ∈ rules (bare ks), CleanRule allowed r

theorem CleanStyle.rule {r : RawRule} (h : CleanStyle allowed r) : CleanRule allowed r := by
  cases r with
  | qualified prelude block => exact h
  | atRule _ _ _ => exact h.elim

theorem sheet_nil : Sheet allowed [] := by simp [Sheet, rules, rulesFuel]

theorem sheet_style {sel content ks : List Kind} (hsel : Selects sel) (hcontent : Declares allowed content)
    (hclosed : openAfter [] (bare content) = []) (hks : Sheet allowed ks) :
    Sheet allowed (sel ++ .punct '{' :: (content ++ .punct '}' :: ks)) := by
  intro r hr
  rw [rules_selects hsel hcontent (.inr ⟨hclosed, ⟨.punct '}', [], true⟩, rfl, rfl⟩)] at hr
  rcases List.mem_cons.mp hr with rfl | hr
  · exact (cleanStyle_block hcontent).rule
  · exact hks r hr

/-- A media rule; its block is closed, or is the rest. -/
theorem sheet_media {query content tail ks : List Kind}
    (hpasses : Passes endsAtRulePrelude [] (bare query)) (hopen : openAfter [] (bare query) = [])
    (hcontent : Styles allowed content) (hcloses : Closes (bare content) (bare tail) (bare ks))
    (hks : Sheet allowed ks) :
    Sheet allowed (.atKeyword "media".toList :: (query ++ .punct '{' :: (content ++ tail))) := by
  intro r hr
  rw [bare_cons, bare_append, bare_cons, bare_append,
    rules_atRule rfl hpasses hopen rfl hcontent.passes hcloses] at hr
  rcases List.mem_cons.mp hr with rfl | hr
  · refine ⟨by decide, fun b hb => ?_⟩
    obtain rfl := Option.mem_some.mp hb
    exact hcontent.rules
  · exact hks r hr

/-! ## 4. What the pieces read as -/

theorem passes_gist {stop : Kind → Bool} (hstop : ∀ k, isSpace k = true → stop k = false)
    {ts : List Token} (h : Passes stop [] ts) : Passes stop [] (bare (solid ts)) := by
  show (upTo stop [] (gist ts)).2 = []
  rw [upTo_gist hstop, h]
  rfl

theorem not_mem_of_safe {text : List Char} (h : isSafeText text = true) :
    '<' ∉ text ∧ '{' ∉ text ∧ '}' ∉ text := by
  simp only [isSafeText, Bool.and_eq_true, Bool.not_eq_true', List.any_eq_false] at h
  refine ⟨fun hmem => h.2 _ hmem rfl, fun hmem => h.2 _ hmem rfl, fun hmem => h.2 _ hmem rfl⟩

/-- A safe text does not end a block. -/
theorem passes_of_safe {text : List Char} (h : isSafeText text = true) (stack : List Char) :
    Passes (· == .punct '}') stack (bare (reads text)) := by
  refine passes_of_not_mem (fun t ht => ?_) stack
  obtain ⟨k, hk, rfl⟩ := List.mem_map.mp ht
  rw [beq_eq_false_iff_ne]
  rintro rfl
  exact (not_mem_of_safe h).2.2 (mem_of_reads hk)

theorem reads_complete {p q : List Char} (hp : Complete p) (hq : Inert q) :
    reads (p ++ q) = reads p ++ reads q := reads_append hq hp.1

theorem closed_of_complete {p : List Char} (hp : Complete p) : openAfter [] (bare (reads p)) = [] :=
  (openAfter_gist [] (tokenize p)).trans hp.2

theorem reads_property {name : List Char} (h : PlainProperty name) (s : List Char) :
    reads (name ++ ':' :: s) = .ident name :: .punct ':' :: reads s := by
  have hname : reads name = [.ident name] := congrArg solid h.1
  have hsettled : ∀ t, (tokenize name).getLast? = some t → t.settled = true := by
    rw [h.1]
    rintro t ⟨⟩
    rfl
  rw [reads_append (inert_colon s) hsettled, hname, reads_punct (by simp)]
  rfl

/-- The tokens of the flag. -/
def importantKinds (important : Bool) : List Kind :=
  if important then [.punct '!', .ident "important".toList] else []

theorem inert_important (important : Bool) (s : List Char) :
    Inert (importantText important ++ ';' :: s) := by
  cases important with
  | false => exact inert_semicolon s
  | true => exact inert_space (.inr (.inl rfl)) _

theorem reads_important (important : Bool) (s : List Char) :
    reads (importantText important ++ ';' :: s) = importantKinds important ++ .punct ';' :: reads s := by
  cases important with
  | false => exact reads_punct (by simp) s
  | true =>
    have hsettled : ∀ t, (tokenize "important".toList).getLast? = some t → t.settled = true := by
      decide
    have hword : reads "important".toList = [.ident "important".toList] := by decide
    show reads (' ' :: '!' :: ("important".toList ++ ';' :: s)) = _
    rw [reads_space (by decide), reads_punct (by simp), reads_append (inert_semicolon s) hsettled, hword,
      reads_punct (by simp)]
    rfl

/-! ## 5. Parts that are over -/

/-- The tokens of a value with its flag. -/
def KeptDecl.valueKinds (d : KeptDecl) : List Kind := solid d.value ++ importantKinds d.important

def KeptDecl.kinds (d : KeptDecl) : List Kind :=
  .ident d.name :: .punct ':' :: (d.valueKinds ++ [.punct ';'])

def KeptStyle.content (r : KeptStyle) : List Kind := (r.decls.map KeptDecl.kinds).flatten

def KeptStyle.kinds (r : KeptStyle) : List Kind :=
  solid r.selectors ++ .punct '{' :: (r.content ++ [.punct '}'])

/-- A piece that stands alone and is over. -/
def Whole (ts : List Token) : Prop := ReadsAlone ts ∧ Complete (consumeText ts)

theorem Whole.reads {ts : List Token} {q : List Char} (h : Whole ts) (hq : Inert q) :
    reads (consumeText ts ++ q) = solid ts ++ reads q := by
  rw [reads_complete h.2 hq, h.1]

theorem Whole.closed {ts : List Token} (h : Whole ts) : openAfter [] (bare (solid ts)) = [] := by
  rw [← h.1]
  exact closed_of_complete h.2

/-- What a declaration reads as, before anything. -/
theorem reads_decl {d : KeptDecl} (hname : PlainProperty d.name) (hwhole : Whole d.value)
    (s : List Char) : reads (d.print ++ s) = d.kinds ++ reads s := by
  have hprint : d.print ++ s = d.name ++ ':' :: (consumeText d.value ++
      (importantText d.important ++ ';' :: s)) := by simp [KeptDecl.print]
  rw [hprint, reads_property hname, hwhole.reads (inert_important _ _), reads_important]
  simp [KeptDecl.kinds, KeptDecl.valueKinds]

/-- A prelude, the bracket behind it, and what is in its block. -/
theorem reads_opening {ts : List Token} {c : Char} (hwhole : Whole ts) (hc : Css.isWhitespace c = true)
    (s : List Char) :
    reads (consumeText ts ++ ' ' :: '{' :: c :: s) = solid ts ++ .punct '{' :: reads s := by
  rw [hwhole.reads (inert_space (.inl rfl) _), reads_space (by decide), reads_punct (by simp),
    reads_space hc]

/-- The closing bracket of a rule. -/
theorem reads_close (s : List Char) : reads (" \x7d\n".toList ++ s) = .punct '}' :: reads s := by
  show reads (' ' :: '}' :: '\n' :: s) = _
  rw [reads_space (by decide), reads_punct (by simp), reads_space (by decide)]

theorem reads_style {r : KeptStyle} (hname : ∀ d ∈ r.decls, PlainProperty d.name)
    (hwhole : ∀ p ∈ r.pieces, Whole p) (s : List Char) :
    reads (r.print ++ s) = r.kinds ++ reads s := by
  have hprint : r.print ++ s = consumeText r.selectors ++ ' ' :: '{' :: ' ' ::
      ((r.decls.map KeptDecl.print).flatten ++ (" \x7d\n".toList ++ s)) := by
    simp [KeptStyle.print]
  have hdecls : ∀ d ∈ r.decls, Whole d.value := fun d hd =>
    hwhole _ (List.mem_cons_of_mem _ (List.mem_map_of_mem hd))
  rw [hprint, reads_opening (hwhole _ List.mem_cons_self) (by decide),
    reads_list fun d hd => reads_decl (hname d hd) (hdecls d hd), reads_close]
  simp [KeptStyle.kinds, KeptStyle.content]

theorem value_passes {d : KeptDecl} (hd : d.Sound allowed) (hreads : ReadsAlone d.value) :
    Passes (· == .punct ';') [] (bare (solid d.value)) ∧
      Passes (· == .punct '}') [] (bare (solid d.value)) := by
  refine ⟨passes_gist ends_solid hd.passes, ?_⟩
  rw [← hreads]
  exact passes_of_safe hd.safe []

/-- The flag of a value closes nothing. -/
theorem important_passes (important : Bool) (stack : List Char) :
    Passes (· == .punct ';') stack (bare (importantKinds important)) ∧
      Passes (· == .punct '}') stack (bare (importantKinds important)) ∧
      openAfter [] (bare (importantKinds important)) = [] := by
  cases important with
  | false => exact ⟨rfl, rfl, rfl⟩
  | true =>
    refine ⟨passes_of_not_mem (fun t ht => ?_) stack, passes_of_not_mem (fun t ht => ?_) stack, rfl⟩ <;>
    · simp only [importantKinds, if_true, bare_cons, bare_nil, List.mem_cons, List.not_mem_nil,
        or_false] at ht
      rcases ht with rfl | rfl <;> rfl

/-- A declaration that is over, in front of others. -/
theorem declares_decl {d : KeptDecl} {ks : List Kind} (hd : d.Sound allowed) (hwhole : Whole d.value)
    (hks : Declares allowed ks) :
    Declares allowed (d.kinds ++ ks) ∧ openAfter [] (bare (d.kinds ++ ks)) = openAfter [] (bare ks) := by
  obtain ⟨hend, hblock⟩ := value_passes hd hwhole.1
  obtain ⟨hend', hblock', hopen'⟩ := important_passes d.important []
  have hname : lower d.name ∈ allowed := by
    rw [hd.lower_name]
    exact hd.name_mem
  have hsplit : bare d.valueKinds = bare (solid d.value) ++ bare (importantKinds d.important) :=
    bare_append _ _
  have hend : Passes (· == .punct ';') [] (bare d.valueKinds) := by
    rw [hsplit, passes_append, hwhole.closed]
    exact ⟨hend, hend'⟩
  have hblock : Passes (· == .punct '}') [] (bare d.valueKinds) := by
    rw [hsplit, passes_append, hwhole.closed]
    exact ⟨hblock, hblock'⟩
  have hclosed : openAfter [] (bare d.valueKinds) = [] := by
    rw [hsplit, openAfter_append, hwhole.closed]
    exact hopen'
  have hcons := declares_cons hname hend hblock hclosed hks
  have heq : d.kinds ++ ks = .ident d.name :: .punct ':' :: (d.valueKinds ++ .punct ';' :: ks) := by
    simp [KeptDecl.kinds]
  rw [heq]
  exact hcons

theorem declares_decls {ds : List KeptDecl} {ks : List Kind} (hds : ∀ d ∈ ds, d.Sound allowed)
    (hwhole : ∀ d ∈ ds, Whole d.value) (hks : Declares allowed ks) :
    Declares allowed ((ds.map KeptDecl.kinds).flatten ++ ks) ∧
      openAfter [] (bare ((ds.map KeptDecl.kinds).flatten ++ ks)) = openAfter [] (bare ks) := by
  induction ds with
  | nil => exact ⟨hks, rfl⟩
  | cons d ds ih =>
    obtain ⟨hrest, hopen⟩ := ih (fun e he => hds e (List.mem_cons_of_mem _ he))
      fun e he => hwhole e (List.mem_cons_of_mem _ he)
    obtain ⟨hcons, hopen'⟩ :=
      declares_decl (hds d List.mem_cons_self) (hwhole d List.mem_cons_self) hrest
    rw [List.map_cons, List.flatten_cons, List.append_assoc]
    exact ⟨hcons, hopen'.trans hopen⟩

theorem selects_selectors {r : KeptStyle} (hr : r.Sound allowed) (hwhole : Whole r.selectors) :
    Selects (solid r.selectors) where
  passes := passes_gist opens_solid hr.passes
  inside := by
    rw [← hwhole.1]
    exact passes_of_safe hr.safe []
  closed := hwhole.closed
  first := by
    cases hts : r.selectors with
    | nil => exact absurd hr.safe (by rw [hts]; decide)
    | cons t ts =>
      obtain ⟨hfirst, hkeyword⟩ := hr.first t (by rw [hts]; rfl)
      refine ⟨t.kind, solid ts, solid_solid ts ?_, hfirst, hkeyword⟩
      simp only [isBetweenRules, Bool.or_eq_false_iff] at hfirst
      exact hfirst.1.1

/-- The declarations of a rule that is over. -/
theorem declares_content {r : KeptStyle} (hr : r.Sound allowed) (hwhole : ∀ p ∈ r.pieces, Whole p) :
    Declares allowed r.content ∧ openAfter [] (bare r.content) = [] := by
  have hdecls := declares_decls hr.decls
    (fun d hd => hwhole _ (List.mem_cons_of_mem _ (List.mem_map_of_mem hd))) declares_nil
  rw [List.append_nil] at hdecls
  exact hdecls

/-- Style rules that are over, in front of others. -/
theorem styles_styles {rs : List KeptStyle} {ks : List Kind} (hrs : ∀ r ∈ rs, r.Sound allowed)
    (hwhole : ∀ r ∈ rs, ∀ p ∈ r.pieces, Whole p) (hks : Styles allowed ks) :
    Styles allowed ((rs.map KeptStyle.kinds).flatten ++ ks) ∧
      openAfter [] (bare ((rs.map KeptStyle.kinds).flatten ++ ks)) = openAfter [] (bare ks) := by
  induction rs with
  | nil => exact ⟨hks, rfl⟩
  | cons r rs ih =>
    obtain ⟨hrest, hopen⟩ := ih (fun e he => hrs e (List.mem_cons_of_mem _ he))
      fun e he => hwhole e (List.mem_cons_of_mem _ he)
    have hpieces := hwhole r List.mem_cons_self
    obtain ⟨hcontent, hclosed⟩ := declares_content (hrs r List.mem_cons_self) hpieces
    obtain ⟨hcons, hopen'⟩ := styles_cons
      (selects_selectors (hrs r List.mem_cons_self) (hpieces _ List.mem_cons_self)) hcontent hclosed hrest
    rw [List.map_cons, List.flatten_cons, KeptStyle.kinds]
    simp only [List.append_assoc, List.cons_append, List.nil_append]
    exact ⟨hcons, hopen'.trans hopen⟩

/-! ## 6. The last value -/

/-- What stands behind the last style rule of a sheet. -/
def behindStyle (inMedia : Bool) : List Char := if inMedia then "\x7d\n".toList else ['\n']

/-- What follows the last declaration of a sheet, and how many brackets that are. -/
def ending (inMedia : Bool) : List Char := " \x7d\n".toList ++ behindStyle inMedia

def levels (inMedia : Bool) : Nat := if inMedia then 2 else 1

/-- A part of the glue behind the last value: a rest of the flag, the semicolon, the brackets. -/
theorem ending_reads (important inMedia : Bool) :
    ∀ r ∈ (importantText important ++ ';' :: ending inMedia).tails, ∃ j < levels inMedia + 1,
      ∃ semicolon ∈ [[], [Kind.punct ';']], ∃ flag ∈ (reads r).inits,
        reads r = flag ++ semicolon ++ List.replicate j (.punct '}') ∧
          ∀ k ∈ flag, Kind.loose k = true ∧ k ≠ .punct ';' ∧ k ≠ .punct '}' := by
  cases important <;> cases inMedia <;> decide

/-- What the last value reads as, with all that follows it: if a bracket is open, that is part of it;
else it ends at its semicolon, or at a bracket of the sheet, or with the text. -/
theorem last_value {d : KeptDecl} (hd : d.Sound allowed) (hreads : ReadsAlone d.value) (inMedia : Bool) :
    ∃ value semicolon j, reads (consumeText d.value ++
        (importantText d.important ++ ';' :: ending inMedia)) =
          value ++ semicolon ++ List.replicate j (.punct '}') ∧
      j ≤ levels inMedia ∧ (semicolon = [] ∨ semicolon = [.punct ';']) ∧
      Passes (· == .punct ';') [] (bare value) ∧ Passes (· == .punct '}') [] (bare value) ∧
      (semicolon = [] ∧ j = 0 ∨ openAfter [] (bare value) = []) := by
  have hbracket : '(' ∉ importantText d.important ++ ';' :: ending inMedia := by
    cases d.important <;> cases inMedia <;> decide
  obtain ⟨init, ls, r, hinit, hall, hplain, hr⟩ :=
    reads_append_open (p := consumeText d.value) (inert_important d.important (ending inMedia)) hbracket
  obtain ⟨j, hj, semicolon, hsemicolon, flag, -, htail, hflag⟩ :=
    ending_reads d.important inMedia r ((List.mem_tails r _).mpr hr)
  have hsemicolon : semicolon = [] ∨ semicolon = [.punct ';'] := by simpa using hsemicolon
  obtain ⟨hend, hblock⟩ := value_passes hd hreads
  rw [← hreads] at hend hblock
  obtain ⟨behind, hbehind⟩ := hinit
  rw [← hbehind, bare_append] at hend hblock
  have hend := (passes_append.mp hend).1
  have hblock := (passes_append.mp hblock).1
  have hstack : ∀ c ∈ openAfter [] (bare init), c = ')' ∨ c = ']' := opened_round fun hbrace =>
    (not_mem_of_safe hd.safe).2.1 (mem_of_reads (hbehind ▸ List.mem_append_left _ hbrace))
  have hloose : ∀ k ∈ ls, k.loose = true := fun k hk => loose_of_plain (hplain k hk)
  by_cases hopen : openAfter [] (bare init) = []
  · have hkinds : ∀ k ∈ ls ++ flag, k.loose = true ∧ k ≠ .punct ';' ∧ k ≠ .punct '}' := by
      intro k hk
      rcases List.mem_append.mp hk with hk | hk
      · refine ⟨hloose k hk, ?_, ?_⟩ <;>
        · rintro rfl
          exact absurd (hplain _ hk) (by simp [Kind.plain])
      · exact hflag k hk
    have hpasses : ∀ c, c = ';' ∨ c = '}' → Passes (· == .punct c) [] (bare (ls ++ flag)) := by
      intro c hc
      refine passes_of_not_mem (fun t ht => ?_) []
      obtain ⟨k, hk, rfl⟩ := List.mem_map.mp ht
      rw [beq_eq_false_iff_ne]
      rcases hc with rfl | rfl
      · exact (hkinds k hk).2.1
      · exact (hkinds k hk).2.2
    refine ⟨init ++ (ls ++ flag), semicolon, j, ?_, Nat.lt_succ_iff.mp hj, hsemicolon, ?_, ?_, .inr ?_⟩
    · rw [hall, htail]
      simp
    · rw [bare_append, passes_append, hopen]
      exact ⟨hend, hpasses _ (.inl rfl)⟩
    · rw [bare_append, passes_append, hopen]
      exact ⟨hblock, hpasses _ (.inr rfl)⟩
    · rw [bare_append, openAfter_append, hopen]
      exact openAfter_loose (fun k hk => (hkinds k hk).1) (by simp)
  · have hkinds : ∀ k ∈ ls ++ reads r, k.loose = true := by
      intro k hk
      rcases List.mem_append.mp hk with hk | hk
      · exact hloose k hk
      · rw [htail, List.mem_append, List.mem_append] at hk
        rcases hk with (hk | hk) | hk
        · exact (hflag k hk).1
        · rcases hsemicolon with rfl | rfl
          · exact absurd hk (by simp)
          · rw [List.mem_singleton.mp hk]
            rfl
        · rw [List.eq_of_mem_replicate hk]
          rfl
    refine ⟨init ++ (ls ++ reads r), [], 0, ?_, Nat.zero_le _, .inl rfl, ?_, ?_, .inl ⟨rfl, rfl⟩⟩
    · rw [hall]
      simp
    · rw [bare_append, passes_append]
      exact ⟨hend, passes_loose hkinds hstack hopen _⟩
    · rw [bare_append, passes_append]
      exact ⟨hblock, passes_loose hkinds hstack hopen _⟩

/-! ## 7. The last rule -/

theorem last_decl {d : KeptDecl} (hd : d.Sound allowed) (hname : PlainProperty d.name)
    (hreads : ReadsAlone d.value) (inMedia : Bool) :
    ∃ ks j, reads (d.print ++ ending inMedia) = ks ++ List.replicate j (.punct '}') ∧
      Declares allowed ks ∧ j ≤ levels inMedia ∧ (j = 0 ∨ openAfter [] (bare ks) = []) := by
  obtain ⟨value, semicolon, j, hvalue, hj, hsemicolon, hend, hblock, hclosed⟩ :=
    last_value hd hreads inMedia
  have hmem : lower d.name ∈ allowed := by
    rw [hd.lower_name]
    exact hd.name_mem
  have hprint : d.print ++ ending inMedia = d.name ++ ':' :: (consumeText d.value ++
      (importantText d.important ++ ';' :: ending inMedia)) := by simp [KeptDecl.print]
  refine ⟨.ident d.name :: .punct ':' :: (value ++ semicolon), j, ?_, ?_, hj, ?_⟩
  · rw [hprint, reads_property hname, hvalue]
    rfl
  · rcases hsemicolon with rfl | rfl
    · rw [List.append_nil]
      exact declares_last hmem hend hblock
    · rcases hclosed with ⟨hnil, -⟩ | hclosed
      · exact absurd hnil (by simp)
      · exact (declares_cons hmem hend hblock hclosed declares_nil).1
  · rcases hclosed with ⟨-, hzero⟩ | hclosed
    · exact .inl hzero
    · refine .inr ?_
      rw [openAfter_declaration, bare_append, openAfter_append, hclosed]
      rcases hsemicolon with rfl | rfl <;> rfl

/-- The pieces of the last rule: all but the last one are over. -/
theorem last_style {r : KeptStyle} (hr : r.Sound allowed) (hnames : ∀ name ∈ allowed, PlainProperty name)
    (hreads : ∀ p ∈ r.pieces, ReadsAlone p)
    (hcomplete : ∀ p ∈ r.pieces.dropLast, Complete (consumeText p)) (inMedia : Bool) :
    ∃ ks j, reads (r.print ++ behindStyle inMedia) = ks ++ List.replicate j (.punct '}') ∧
      Styles allowed ks ∧ j < levels inMedia ∧ (j = 0 ∨ openAfter [] (bare ks) = []) := by
  obtain ⟨init, d, hdecls⟩ := (List.eq_nil_or_concat' r.decls).resolve_left hr.decls_ne_nil
  have hpieces : r.pieces = r.selectors :: init.map KeptDecl.value ++ [d.value] := by
    simp [KeptStyle.pieces, hdecls]
  rw [hpieces, List.dropLast_concat] at hcomplete
  rw [hpieces] at hreads
  have hwhole : ∀ p ∈ r.selectors :: init.map KeptDecl.value, Whole p := fun p hp =>
    ⟨hreads p (List.mem_append_left _ hp), hcomplete p hp⟩
  have hinit : ∀ e ∈ init, e.Sound allowed := fun e he => hr.decls e (by simp [hdecls, he])
  have hd : d.Sound allowed := hr.decls d (by simp [hdecls])
  have hvalues : ∀ e ∈ init, Whole e.value := fun e he =>
    hwhole _ (List.mem_cons_of_mem _ (List.mem_map_of_mem he))
  obtain ⟨ks, j, hlast, hks, hj, hclosed⟩ :=
    last_decl hd (hnames _ hd.name_mem) (hreads d.value (by simp)) inMedia
  obtain ⟨hcontent, hopen⟩ := declares_decls hinit hvalues hks
  have hsel := selects_selectors hr (hwhole _ List.mem_cons_self)
  have hprint : r.print ++ behindStyle inMedia = consumeText r.selectors ++ ' ' :: '{' :: ' ' ::
      ((init.map KeptDecl.print).flatten ++ (d.print ++ ending inMedia)) := by
    simp [KeptStyle.print, hdecls, ending, behindStyle]
  rw [hprint, reads_opening (hwhole _ List.mem_cons_self) (by decide),
    reads_list fun e he => reads_decl (hnames _ (hinit e he).name_mem) (hvalues e he), hlast]
  cases j with
  | zero =>
    refine ⟨_, 0, (List.append_nil _).symm, ?_, by cases inMedia <;> decide, .inl rfl⟩
    simpa using styles_last hsel hcontent
  | succ j =>
    have hclosed := hopen.trans (hclosed.resolve_left (by simp))
    obtain ⟨hstyles, hopen'⟩ := styles_cons hsel hcontent hclosed styles_nil
    refine ⟨_, j, ?_, hstyles, hj, .inr hopen'⟩
    simp [List.replicate_succ]

/-- The last rule of a sheet. -/
theorem last_rule {r : KeptRule} (hr : r.Sound allowed) (hnames : ∀ name ∈ allowed, PlainProperty name)
    (hreads : ∀ p ∈ r.pieces, ReadsAlone p)
    (hcomplete : ∀ p ∈ r.pieces.dropLast, Complete (consumeText p)) :
    Sheet allowed (reads (r.print ++ ['\n'])) := by
  cases r with
  | style r =>
    obtain ⟨ks, j, hlast, hks, hj, -⟩ := last_style (r := r) hr hnames hreads hcomplete false
    obtain rfl : j = 0 := Nat.lt_one_iff.mp hj
    rw [show behindStyle false = ['\n'] from rfl, List.replicate_zero, List.append_nil] at hlast
    rw [show (KeptRule.style r).print = r.print from rfl, hlast]
    exact fun raw hraw => (hks.rules raw hraw).rule
  | media query rs =>
    obtain ⟨hsafe, hpasses, hnil, hrs⟩ := hr
    obtain ⟨init, r, rfl⟩ := (List.eq_nil_or_concat' rs).resolve_left hnil
    have hpieces : (KeptRule.media query (init ++ [r])).pieces =
        (query :: (init.map KeptStyle.pieces).flatten) ++ r.pieces := by
      simp [KeptRule.pieces]
    have hne : r.pieces ≠ [] := by simp [KeptStyle.pieces]
    rw [hpieces, List.dropLast_append_of_ne_nil hne] at hcomplete
    rw [hpieces] at hreads
    have hwhole : ∀ p ∈ query :: (init.map KeptStyle.pieces).flatten, Whole p := fun p hp =>
      ⟨hreads p (List.mem_append_left _ hp), hcomplete p (List.mem_append_left _ hp)⟩
    have hquery := hwhole query List.mem_cons_self
    have hinit : ∀ e ∈ init, e.Sound allowed := fun e he => hrs e (List.mem_append_left _ he)
    have hstyles : ∀ e ∈ init, ∀ p ∈ e.pieces, Whole p := fun e he p hp =>
      hwhole p (List.mem_cons_of_mem _ (List.mem_flatten_of_mem (List.mem_map_of_mem he) hp))
    obtain ⟨ks, j, hlast, hks, hj, hclosed⟩ := last_style (hrs r (by simp)) hnames
      (fun p hp => hreads p (List.mem_append_right _ hp))
      (fun p hp => hcomplete p (List.mem_append_right _ hp)) true
    obtain ⟨hcontent, hopen⟩ := styles_styles hinit hstyles hks
    have hprint : (KeptRule.media query (init ++ [r])).print ++ ['\n'] = "@media ".toList ++
        (consumeText query ++ ' ' :: '{' :: '\n' :: ((init.map KeptStyle.print).flatten ++
          (r.print ++ behindStyle true))) := by
      rw [print_media, show behindStyle true = ['}', '\n'] from rfl]
      simp only [List.map_append, List.map_cons, List.map_nil, List.flatten_append, List.flatten_cons,
        List.flatten_nil, List.append_nil, List.append_assoc, List.cons_append, List.nil_append]
    have hnames' : ∀ e ∈ init, ∀ d ∈ e.decls, PlainProperty d.name := fun e he d hd =>
      hnames _ ((hinit e he).decls d hd).name_mem
    have hall : reads ((KeptRule.media query (init ++ [r])).print ++ ['\n']) =
        .atKeyword "media".toList :: (solid query ++ .punct '{' ::
          ((init.map KeptStyle.kinds).flatten ++ ks ++ List.replicate j (.punct '}'))) := by
      rw [hprint, reads_media, reads_opening hquery (by decide),
        reads_list fun e he => reads_style (hnames' e he) (hstyles e he), hlast, List.append_assoc]
    have hcloses : Closes (bare ((init.map KeptStyle.kinds).flatten ++ ks))
        (bare (List.replicate j (.punct '}'))) (bare []) := by
      rcases Nat.lt_or_ge 0 j with hpos | hzero
      · obtain rfl : j = 1 := Nat.le_antisymm (Nat.lt_succ_iff.mp hj) hpos
        exact .inr ⟨hopen.trans (hclosed.resolve_left (by simp)), _, rfl, rfl⟩
      · obtain rfl : j = 0 := Nat.le_zero.mp hzero
        exact .inl ⟨rfl, rfl⟩
    rw [hall]
    exact sheet_media (passes_gist endsAtRulePrelude_solid hpasses) hquery.closed hcontent hcloses
      sheet_nil

/-! ## 8. The sheet -/

def KeptRule.kinds : KeptRule → List Kind
  | .style r => r.kinds
  | .media query rs =>
    .atKeyword "media".toList :: (solid query ++ .punct '{' ::
      ((rs.map KeptStyle.kinds).flatten ++ [.punct '}']))

/-- A rule that is over. -/
theorem reads_rule {r : KeptRule} (hr : r.Sound allowed) (hnames : ∀ name ∈ allowed, PlainProperty name)
    (hwhole : ∀ p ∈ r.pieces, Whole p) (s : List Char) :
    reads ((r.print ++ ['\n']) ++ s) = r.kinds ++ reads s := by
  rw [List.append_assoc]
  cases r with
  | style r =>
    have hstyle : ∀ d ∈ r.decls, PlainProperty d.name := fun d hd => hnames _ (hr.decls d hd).name_mem
    refine (reads_style hstyle hwhole _).trans ?_
    rw [List.cons_append, List.nil_append, reads_space (by decide)]
    rfl
  | media query rs =>
    have hstyles : ∀ r ∈ rs, ∀ p ∈ r.pieces, Whole p := fun r hr p hp =>
      hwhole p (List.mem_cons_of_mem _ (List.mem_flatten_of_mem (List.mem_map_of_mem hr) hp))
    have hnames' : ∀ r ∈ rs, ∀ d ∈ r.decls, PlainProperty d.name := fun r hmem d hd =>
      hnames _ ((hr.2.2.2 r hmem).decls d hd).name_mem
    have hprint : (KeptRule.media query rs).print ++ (['\n'] ++ s) = "@media ".toList ++
        (consumeText query ++ ' ' :: '{' :: '\n' :: ((rs.map KeptStyle.print).flatten ++
          '}' :: '\n' :: s)) := by
      rw [print_media]
      simp only [List.append_assoc, List.cons_append, List.nil_append]
    rw [hprint, reads_media, reads_opening (hwhole query List.mem_cons_self) (by decide),
      reads_list fun r hr => reads_style (hnames' r hr) (hstyles r hr), reads_punct (by simp),
      reads_space (by decide)]
    simp only [KeptRule.kinds, List.append_assoc, List.cons_append, List.nil_append]

theorem sheet_rule {r : KeptRule} {ks : List Kind} (hr : r.Sound allowed) (hwhole : ∀ p ∈ r.pieces, Whole p)
    (hks : Sheet allowed ks) : Sheet allowed (r.kinds ++ ks) := by
  cases r with
  | style r =>
    obtain ⟨hcontent, hclosed⟩ := declares_content (r := r) hr hwhole
    have hsheet := sheet_style (selects_selectors (r := r) hr (hwhole _ List.mem_cons_self)) hcontent
      hclosed hks
    simpa only [KeptRule.kinds, KeptStyle.kinds, List.append_assoc, List.cons_append,
      List.nil_append] using hsheet
  | media query rs =>
    have hquery := hwhole query List.mem_cons_self
    have hstyles : ∀ r ∈ rs, ∀ p ∈ r.pieces, Whole p := fun r hr p hp =>
      hwhole p (List.mem_cons_of_mem _ (List.mem_flatten_of_mem (List.mem_map_of_mem hr) hp))
    obtain ⟨hcontent, hopen⟩ := styles_styles hr.2.2.2 hstyles styles_nil
    rw [List.append_nil] at hcontent hopen
    have hcloses : Closes (bare (rs.map KeptStyle.kinds).flatten) (bare (.punct '}' :: ks)) (bare ks) :=
      .inr ⟨hopen, _, rfl, rfl⟩
    have hsheet := sheet_media (passes_gist endsAtRulePrelude_solid hr.2.1) hquery.closed hcontent
      hcloses hks
    simpa only [KeptRule.kinds, List.append_assoc, List.cons_append, List.nil_append] using hsheet

/-- A sheet all of whose pieces stand alone, and all but the last are over. -/
theorem sheet_print {rs : List KeptRule} (hrs : ∀ r ∈ rs, r.Sound allowed)
    (hnames : ∀ name ∈ allowed, PlainProperty name)
    (hreads : ∀ p ∈ rs.flatMap KeptRule.pieces, ReadsAlone p)
    (hcomplete : ∀ p ∈ (rs.flatMap KeptRule.pieces).dropLast, Complete (consumeText p)) :
    Sheet allowed (reads (rs.flatMap fun r => r.print ++ ['\n'])) := by
  induction rs with
  | nil => exact sheet_nil
  | cons r rs ih =>
    rw [List.flatMap_cons] at hreads hcomplete
    rcases rs with _ | ⟨next, rs⟩
    · rw [List.flatMap_nil, List.append_nil] at hreads hcomplete
      rw [List.flatMap_cons, List.flatMap_nil, List.append_nil]
      exact last_rule (hrs r List.mem_cons_self) hnames hreads hcomplete
    · have hne : (next :: rs).flatMap KeptRule.pieces ≠ [] := by
        cases next <;> simp [KeptRule.pieces, KeptStyle.pieces]
      rw [List.dropLast_append_of_ne_nil hne] at hcomplete
      have hwhole : ∀ p ∈ r.pieces, Whole p := fun p hp =>
        ⟨hreads p (List.mem_append_left _ hp), hcomplete p (List.mem_append_left _ hp)⟩
      rw [List.flatMap_cons, reads_rule (hrs r List.mem_cons_self) hnames hwhole]
      exact sheet_rule (hrs r List.mem_cons_self) hwhole (ih (fun e he => hrs e (List.mem_cons_of_mem _ he))
        (fun p hp => hreads p (List.mem_append_right _ hp))
        fun p hp => hcomplete p (List.mem_append_right _ hp))

/-! ## 9. No end of the element -/

theorem decl_no_lt {d : KeptDecl} (hd : d.Sound allowed) (hnames : ∀ name ∈ allowed, PlainProperty name) :
    '<' ∉ d.print := by
  have hname := (hnames _ hd.name_mem).2
  have hvalue := (not_mem_of_safe hd.safe).1
  have hflag : '<' ∉ importantText d.important := by cases d.important <;> decide
  simp [KeptDecl.print, hname, hvalue, hflag]

theorem style_no_lt {r : KeptStyle} (hr : r.Sound allowed) (hnames : ∀ name ∈ allowed, PlainProperty name) :
    '<' ∉ r.print := by
  have hsel := (not_mem_of_safe hr.safe).1
  have hdecls : '<' ∉ (r.decls.map KeptDecl.print).flatten := by
    simp only [List.mem_flatten, List.mem_map, not_exists, not_and]
    rintro _ ⟨d, hd, rfl⟩
    exact decl_no_lt (hr.decls d hd) hnames
  simp [KeptStyle.print, hsel, hdecls]

theorem rule_no_lt {r : KeptRule} (hr : r.Sound allowed) (hnames : ∀ name ∈ allowed, PlainProperty name) :
    '<' ∉ r.print := by
  cases r with
  | style r => exact style_no_lt hr hnames
  | media query rs =>
    have hquery := (not_mem_of_safe hr.1).1
    have hstyles : '<' ∉ (rs.map KeptStyle.print).flatten := by
      simp only [List.mem_flatten, List.mem_map, not_exists, not_and]
      rintro _ ⟨style, hstyle, rfl⟩
      exact style_no_lt (hr.2.2.2 style hstyle) hnames
    rw [print_media]
    simp [hquery, hstyles]

/-! ## 10. The filtered sheet -/

/-- What is read of a filtered sheet is clean if its pieces stand alone and all but the last are
over.

No more is asked of the sheet: it may be any text, and need not be a style sheet at all.  The condition is
not necessary, as a piece that trimming has changed may still read clean. -/
theorem filtered_reads_clean {css : List Char} (hnames : ∀ name ∈ allowed, PlainProperty name)
    (hreads : ∀ p ∈ pieces allowed css, ReadsAlone p)
    (hcomplete : ∀ p ∈ (pieces allowed css).dropLast, Complete (consumeText p)) :
    Clean allowed (filterStylesheet allowed css) := by
  have hsound : ∀ r ∈ keptSheet allowed css, r.Sound allowed := fun r hr => keptSheet_sound hr
  rw [filterStylesheet_print]
  refine ⟨(clean_iff_reads _).mpr (sheet_print hsound hnames hreads hcomplete), ?_⟩
  simp only [List.mem_flatMap, not_exists, not_and]
  rintro r hr hmem
  rcases List.mem_append.mp hmem with hmem | hmem
  · exact rule_no_lt (hsound r hr) hnames hmem
  · exact absurd hmem (by decide)

/-- The properties of the program are written plainly. -/
theorem allowedStyleProperties_plain : ∀ name ∈ allowedStyleProperties, PlainProperty name := by
  have hletters : (allowedStyleProperties.all fun name =>
      (name.head?.any fun c => 'a' ≤ c ∧ c ≤ 'z') && name.tail.all isNameChar) = true := by
    -- the letters of the names are read off the literals here, which costs the kernel much more
    rw [allowedStyleProperties]
    simp only [List.map_cons, List.map_nil]
    repeat rw [String.toList_ofList]
    decide
  intro name hname
  have hplain := List.all_eq_true.mp hletters name hname
  rw [Bool.and_eq_true, List.all_eq_true] at hplain
  obtain ⟨hhead, htail⟩ := hplain
  cases name with
  | nil => exact absurd hhead (by simp)
  | cons c s =>
    have hc : 'a' ≤ c ∧ c ≤ 'z' := of_decide_eq_true hhead
    refine ⟨tokenize_name hc htail, fun hmem => ?_⟩
    rcases List.mem_cons.mp hmem with rfl | hmem
    · exact absurd hc.1 (by decide)
    · exact absurd (htail _ hmem) (by decide)

/-- A sheet with a media query, a flag and a comment, whose last string is not closed. -/
theorem filtered_reads_clean_unclosed :
    Clean allowedStyleProperties (filterStylesheet allowedStyleProperties
      "@media print\x7bb\x7bcolor:rgb(1)/**/!important;margin:0\x7d\x7dp\x7btop:0;color:\"x\x7d".toList) := by
  refine filtered_reads_clean allowedStyleProperties_plain ?_ ?_ <;>
  · rw [allowedStyleProperties]
    simp only [List.map_cons, List.map_nil]
    repeat rw [String.toList_ofList]
    decide

/-- A no-break space that is trimmed away hides an `@import`; a string that a line break ended takes
the next declaration in, and a selector becomes one of a property that is not allowed. -/
theorem filtered_reads_unclean :
    ¬Clean allowedStyleProperties (filterStylesheet allowedStyleProperties
        "\u00A0@import url(//evil); p\x7bcolor:red\x7d".toList) ∧
      ¬Clean allowedStyleProperties (filterStylesheet allowedStyleProperties
        "p\x7bcolor:\"a\n;margin:0\x7dx;position:fixed;y\x7bcolor:red\x7d".toList) := by
  constructor <;>
  · rw [allowedStyleProperties]
    simp only [List.map_cons, List.map_nil]
    repeat rw [String.toList_ofList]
    decide

end Esmail
