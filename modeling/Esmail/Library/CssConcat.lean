/-
# CSS Syntax Level 3: texts put together

What a concatenation reads as.  A text that is followed by a space, a colon or a semicolon keeps its
tokens, but for the last one if that is not `settled`: and an escape may take ONE space from what
follows.  The grammar does not look at whitespace, nor at comments, so the law is stated for the other
tokens, the solid ones: `reads_append`.
-/
import Esmail.Library.CssShapes

namespace Css

@[simp] theorem tokenizer_step (m : Mode) (c : Char) (s : List Char) :
    tokenizer.step m c s = m.step c s := rfl

theorem step_start (c : Char) (s : List Char) :
    tokenizer.step .start c s = some (Mode.first c s) := rfl

/-! ## 1. What decides nothing about the text before it -/

/-- What the glue behind a piece of a sheet starts with. -/
def Inert : List Char → Prop
  | [] => False
  | c :: s => c = ':' ∨ c = ';' ∨ c = ' ' ∧ (s.head? = some '{' ∨ s.head? = some '!' ∨ s.head? = some '}')

theorem inert_colon (s : List Char) : Inert (':' :: s) := .inl rfl

theorem inert_semicolon (s : List Char) : Inert (';' :: s) := .inr (.inl rfl)

theorem inert_space {c : Char} (hc : c = '{' ∨ c = '!' ∨ c = '}') (s : List Char) :
    Inert (' ' :: c :: s) :=
  .inr (.inr ⟨rfl, hc.imp (congrArg some) (Or.imp (congrArg some) (congrArg some))⟩)

theorem Inert.head {q : List Char} (hq : Inert q) :
    ∃ c s, q = c :: s ∧ (c = ':' ∨ c = ';' ∨ c = ' ') := by
  cases q with
  | nil => exact hq.elim
  | cons c s =>
    rcases hq with hc | hc | ⟨hc, -⟩
    · exact ⟨c, s, rfl, .inl hc⟩
    · exact ⟨c, s, rfl, .inr (.inl hc)⟩
    · exact ⟨c, s, rfl, .inr (.inr hc)⟩

section Lookahead

variable {q : List Char} (hq : Inert q)

include hq

theorem validEscape_append (s : List Char) : validEscape (s ++ q) = validEscape s := by
  cases s with
  | nil => obtain ⟨c, s, rfl, rfl | rfl | rfl⟩ := hq.head <;> rfl
  | cons c s => rfl

theorem startsDigit_append (s : List Char) : startsDigit (s ++ q) = startsDigit s := by
  cases s with
  | nil => obtain ⟨c, s, rfl, rfl | rfl | rfl⟩ := hq.head <;> rfl
  | cons c s => rfl

theorem startsUnsigned_append (s : List Char) : startsUnsigned (s ++ q) = startsUnsigned s := by
  cases s with
  | nil => obtain ⟨c, s, rfl, rfl | rfl | rfl⟩ := hq.head <;> rfl
  | cons c s => simp only [List.cons_append, startsUnsigned, startsDigit_append hq]

theorem startsExponent_append (s : List Char) : startsExponent (s ++ q) = startsExponent s := by
  cases s with
  | nil => obtain ⟨c, s, rfl, rfl | rfl | rfl⟩ := hq.head <;> rfl
  | cons c s => simp only [List.cons_append, startsExponent, startsDigit_append hq]

theorem startsNameChar_append (s : List Char) : startsNameChar (s ++ q) = startsNameChar s := by
  cases s with
  | nil => obtain ⟨c, s, rfl, rfl | rfl | rfl⟩ := hq.head <;> rfl
  | cons c s => simp only [List.cons_append, startsNameChar, validEscape_append hq]

theorem startsIdent_append (s : List Char) : startsIdent (s ++ q) = startsIdent s := by
  cases s with
  | nil => obtain ⟨c, s, rfl, rfl | rfl | rfl⟩ := hq.head <;> rfl
  | cons c s =>
    simp only [List.cons_append, startsIdent, validEscape_append hq]
    cases s with
    | nil => obtain ⟨c, s, rfl, rfl | rfl | rfl⟩ := hq.head <;> rfl
    | cons d s => simp only [List.cons_append, validEscape_append hq]

theorem quoteAhead_append (s : List Char) : quoteAhead (s ++ q) = quoteAhead s := by
  induction s with
  | nil =>
    cases q with
    | nil => exact hq.elim
    | cons c s =>
      rcases hq with rfl | rfl | ⟨rfl, hs⟩
      · rfl
      · rfl
      · cases s with
        | nil => rfl
        | cons d s =>
          simp only [List.head?_cons, Option.some.injEq] at hs
          rcases hs with rfl | rfl | rfl <;> rfl
  | cons c s ih => simp only [List.cons_append, quoteAhead, ih]

theorem head_append {x : Char} (hx : x ≠ ':' ∧ x ≠ ';' ∧ x ≠ ' ') (s : List Char) :
    ((s ++ q).head? = some x) = (s.head? = some x) := by
  cases s with
  | nil =>
    obtain ⟨c, s, rfl, hc⟩ := hq.head
    simp only [List.nil_append, List.head?_cons, List.head?_nil, Option.some.injEq, reduceCtorEq,
      eq_iff_iff, iff_false]
    rintro rfl
    rcases hc with rfl | rfl | rfl <;> simp at hx
  | cons c s => rfl

theorem isPrefixOf_append {w : List Char} (hw : ∀ x ∈ w, x ≠ ':' ∧ x ≠ ';' ∧ x ≠ ' ') (s : List Char) :
    w.isPrefixOf (s ++ q) = w.isPrefixOf s := by
  induction w generalizing s with
  | nil => rfl
  | cons x w ih =>
    cases s with
    | nil =>
      obtain ⟨c, s, rfl, hc⟩ := hq.head
      have hx := hw x List.mem_cons_self
      have hne : (x == c) = false := by
        rw [beq_eq_false_iff_ne]
        rintro rfl
        rcases hc with rfl | rfl | rfl <;> simp at hx
      simp [List.isPrefixOf, hne]
    | cons c s =>
      simp only [List.cons_append, List.isPrefixOf, ih (fun y hy => hw y (List.mem_cons_of_mem _ hy))]

/-- No step of the tokenizer depends on it. -/
theorem localAt_tokenizer : Lexer.LocalAt tokenizer q := by
  intro m c s
  have hident : startsIdent (c :: (s ++ q)) = startsIdent (c :: s) := startsIdent_append hq (c :: s)
  have harrow : ['-', '>'].isPrefixOf (s ++ q) = ['-', '>'].isPrefixOf s :=
    isPrefixOf_append hq (by simp) s
  have hbang : ['!', '-', '-'].isPrefixOf (s ++ q) = ['!', '-', '-'].isPrefixOf s :=
    isPrefixOf_append hq (by simp) s
  have hstar := head_append hq (x := '*') (by decide) s
  have heq := head_append hq (x := '=') (by decide) s
  have hline := head_append hq (x := '\n') (by decide) s
  have hunescape : ∀ esc, Mode.unescape esc c (s ++ q) = Mode.unescape esc c s := by
    intro esc
    cases esc <;> simp only [Mode.unescape, hline]
  rw [tokenizer_step, tokenizer_step]
  cases m with
  | start =>
    simp only [Mode.step, Mode.first, hstar, startsNameChar_append hq, startsUnsigned_append hq, harrow,
      hident, startsDigit_append hq, hbang, startsIdent_append hq, validEscape_append hq, heq]
  | name of esc value =>
    simp only [Mode.step, Mode.nameStep, hunescape, validEscape_append hq, quoteAhead_append hq]
  | string quote esc => simp only [Mode.step, Mode.stringStep, hunescape]
  | number part =>
    simp only [Mode.step, Mode.numberStep, Mode.unitStep, startsExponent_append hq,
      startsDigit_append hq, hident]
  | url part esc =>
    simp only [Mode.step, Mode.urlStep, Mode.badUrlStep, hunescape, validEscape_append hq]
  | badUrl escaped => simp only [Mode.step, Mode.badUrlStep, validEscape_append hq]
  | fixed text left => cases left <;> rfl
  | whitespace | commentOpen | comment _ | commentEnd | stringEnd | function _ | percentage | urlEnd
  | badUrlEnd | punct _ => rfl

end Lookahead

/-! ## 2. Where a lexeme stops -/

/-- A settled lexeme stops there, unless it ends in an escape that takes the space. -/
theorem step_settled {m : Mode} {c : Char} (s : List Char) (hm : m.settled = true)
    (hc : c = ':' ∨ c = ';' ∨ c = ' ') :
    tokenizer.step m c s = none ∨
      c = ' ' ∧ ∃ of digits code value, m = .name of (.hex digits code) value := by
  rw [tokenizer_step]
  cases m with
  | name of esc value =>
    cases esc with
    | plain =>
      refine .inl ?_
      rcases hc with rfl | rfl | rfl <;>
        simp [Mode.step, Mode.nameStep, Mode.unescape, isNameChar, isNameStart, isDigit]
    | hex digits code =>
      rcases hc with rfl | rfl | rfl
      · exact .inl (by simp [Mode.step, Mode.nameStep, Mode.unescape, isNameChar, isNameStart, isDigit,
          isHexDigit, isWhitespace, isNewline])
      · exact .inl (by simp [Mode.step, Mode.nameStep, Mode.unescape, isNameChar, isNameStart, isDigit,
          isHexDigit, isWhitespace, isNewline])
      · exact .inr ⟨rfl, of, digits, code, value, rfl⟩
    | escape => exact absurd hm (by simp [Mode.settled])
    | cr => exact absurd hm (by simp [Mode.settled])
  | number part =>
    refine .inl ?_
    cases part with
    | sign | point | mark => exact absurd hm (by simp [Mode.settled])
    | integer | fraction | exponent =>
      rcases hc with rfl | rfl | rfl <;>
        simp [Mode.step, Mode.numberStep, Mode.unitStep, startsIdent, isNameStart, isDigit]
  | fixed text left =>
    cases left with
    | zero => exact .inl rfl
    | succ left => exact absurd hm (by simp [Mode.settled])
  | commentEnd | stringEnd | function _ | percentage | urlEnd | badUrlEnd | punct _ => exact .inl rfl
  | start | whitespace | commentOpen | comment _ | string _ _ | url _ _ | badUrl _ =>
    exact absurd hm (by simp [Mode.settled])

/-- So its token is the same, and at most one space is missing from what follows. -/
theorem scan_settled {m : Mode} {q : List Char} (hq : Inert q) (hm : m.settled = true) :
    (tokenizer.scan m q).1.kind = m.kind ∧
      ((tokenizer.scan m q).2.2 = q ∨ q = ' ' :: (tokenizer.scan m q).2.2) := by
  obtain ⟨c, s, rfl, hc⟩ := hq.head
  rcases step_settled s hm hc with hstop | ⟨rfl, of, digits, code, value, rfl⟩
  · rw [Lexer.scan_cons_none hstop]
    exact ⟨rfl, .inl rfl⟩
  · have hstep : tokenizer.step (.name of (.hex digits code) value) ' ' s =
        some (.name of .plain (value ++ [escapedChar code])) := by
      simp [Mode.step, Mode.nameStep, Mode.unescape, isHexDigit, isDigit, isWhitespace, isNewline]
    have hend : tokenizer.scan (.name of .plain (value ++ [escapedChar code])) s =
        (.name of .plain (value ++ [escapedChar code]), [], s) := by
      cases s with
      | nil => rfl
      | cons d s =>
        refine Lexer.scan_cons_none ?_
        rcases hq with h | h | ⟨-, h⟩
        · exact absurd h (by decide)
        · exact absurd h (by decide)
        · simp only [List.head?_cons, Option.some.injEq] at h
          rcases h with rfl | rfl | rfl <;>
            simp [Mode.step, Mode.nameStep, Mode.unescape, isNameChar, isNameStart, isDigit]
    rw [Lexer.scan_cons_some hstep, hend]
    refine ⟨?_, .inr rfl⟩
    cases of <;> simp [Mode.kind, Mode.pendingChar]

/-! ## 3. What a text reads as -/

/-- The kinds of a text's solid tokens. -/
def reads (s : List Char) : List Kind := solid (tokenize s)

@[simp] theorem reads_nil : reads [] = [] := rfl

theorem tokenize_cons (c : Char) (s : List Char) :
    tokenize (c :: s) =
      tokenOf ((tokenizer.scan .start (c :: s)).1, (tokenizer.scan .start (c :: s)).2.1) ::
        tokenize (tokenizer.scan .start (c :: s)).2.2 := by
  rw [tokenize, Lexer.lex_cons]
  rfl

theorem scan_whitespace (s : List Char) :
    (tokenizer.scan .whitespace s).1 = .whitespace ∧
      (tokenizer.scan .whitespace s).2.2 = s.dropWhile isWhitespace := by
  induction s with
  | nil => exact ⟨rfl, rfl⟩
  | cons c s ih =>
    cases hc : isWhitespace c with
    | true =>
      have hstep : tokenizer.step .whitespace c s = some .whitespace := by simp [Mode.step, hc]
      rw [Lexer.scan_cons_some hstep, List.dropWhile_cons, if_pos hc]
      exact ih
    | false =>
      have hstep : tokenizer.step .whitespace c s = none := by simp [Mode.step, hc]
      rw [Lexer.scan_cons_none hstep, List.dropWhile_cons, if_neg (by simp [hc])]
      exact ⟨rfl, rfl⟩

theorem reads_whitespace {c : Char} (hc : isWhitespace c = true) (s : List Char) :
    reads (c :: s) = reads (s.dropWhile isWhitespace) := by
  have hstep : tokenizer.step .start c s = some .whitespace := by simp [Mode.step, Mode.first, hc]
  obtain ⟨hmode, hrest⟩ := scan_whitespace s
  rw [reads, tokenize_cons, Lexer.scan_cons_some hstep, hmode, hrest]
  exact solid_space _ rfl

/-- Whitespace in front of a text is not read. -/
theorem reads_space {c : Char} (hc : isWhitespace c = true) (s : List Char) :
    reads (c :: s) = reads s := by
  rw [reads_whitespace hc]
  cases s with
  | nil => rfl
  | cons d s =>
    cases hd : isWhitespace d with
    | true => rw [List.dropWhile_cons, if_pos hd, reads_whitespace hd]
    | false => rw [List.dropWhile_cons, if_neg (by simp [hd])]

theorem scan_punct (c : Char) (s : List Char) :
    tokenizer.scan (.punct c) s = (.punct c, [], s) := by
  cases s with
  | nil => rfl
  | cons d s => exact Lexer.scan_cons_none rfl

/-- A bracket, a colon, a semicolon or an exclamation mark. -/
theorem reads_punct {c : Char} (hc : c ∈ ['{', '}', ':', ';', '!']) (s : List Char) :
    reads (c :: s) = .punct c :: reads s := by
  have hstep : tokenizer.step .start c s = some (.punct c) := by
    simp only [List.mem_cons, List.not_mem_nil, or_false] at hc
    rcases hc with rfl | rfl | rfl | rfl | rfl <;>
      simp [Mode.step, Mode.first, isWhitespace, isNewline, isQuote, isDigit, isNameStart]
  rw [reads, tokenize_cons, Lexer.scan_cons_some hstep, scan_punct]
  exact solid_solid _ rfl

/-! A name that is written without escapes. -/

theorem scan_name {s : List Char} (hs : ∀ c ∈ s, isNameChar c = true) (value : List Char) :
    tokenizer.scan (.name .ident .plain value) s = (.name .ident .plain (value ++ s), s, []) := by
  induction s generalizing value with
  | nil => simp [Lexer.scan]
  | cons c s ih =>
    have hstep : tokenizer.step (.name .ident .plain value) c s =
        some (.name .ident .plain (value ++ [c])) := by
      simp [Mode.step, Mode.nameStep, Mode.unescape, Mode.pendingChar, hs c List.mem_cons_self]
    rw [Lexer.scan_cons_some hstep, ih fun d hd => hs d (List.mem_cons_of_mem _ hd)]
    simp

/-- A letter starts a name, and nothing else. -/
theorem first_letter {c : Char} (hc : 'a' ≤ c ∧ c ≤ 'z') (s : List Char) :
    Mode.first c s = .name .ident .plain [c] := by
  have hstart : isNameStart c = true := by simp [isNameStart, hc.1, hc.2]
  have hdigit : isDigit c = false := by
    have hlt : ¬c ≤ '9' := fun h => absurd (Char.le_trans hc.1 h) (by decide)
    simp [isDigit, hlt]
  have hne : ∀ d, d < 'a' → c ≠ d := by
    rintro d hd rfl
    exact Char.not_lt.mpr hc.1 hd
  have hwhite : isWhitespace c = false := by
    simp [isWhitespace, isNewline, hne _ (show '\n' < 'a' by decide), hne _ (show '\r' < 'a' by decide),
      hne _ (show '\x0C' < 'a' by decide), hne _ (show ' ' < 'a' by decide),
      hne _ (show '\t' < 'a' by decide)]
  have hquote : isQuote c = false := by
    simp [isQuote, hne _ (show '"' < 'a' by decide), hne _ (show '\'' < 'a' by decide)]
  simp [Mode.first, hwhite, hquote, hdigit, hstart, hne _ (show '/' < 'a' by decide),
    hne _ (show '#' < 'a' by decide), hne _ (show '+' < 'a' by decide),
    hne _ (show '-' < 'a' by decide), hne _ (show '.' < 'a' by decide),
    hne _ (show '<' < 'a' by decide), hne _ (show '@' < 'a' by decide),
    hne _ (show '\\' < 'a' by decide)]

theorem tokenize_name {c : Char} {s : List Char} (hc : 'a' ≤ c ∧ c ≤ 'z')
    (hs : ∀ d ∈ s, isNameChar d = true) : tokenize (c :: s) = [⟨.ident (c :: s), c :: s, true⟩] := by
  have hstep : tokenizer.step .start c s = some (.name .ident .plain [c]) :=
    congrArg some (first_letter hc s)
  rw [tokenize_cons, Lexer.scan_cons_some hstep, scan_name hs]
  simp [tokenOf, Mode.kind, Mode.pendingChar, Mode.settled, tokenize]

/-- The keyword `@media`, before a space. -/
theorem reads_media (s : List Char) :
    reads ("@media ".toList ++ s) = .atKeyword "media".toList :: reads s := by
  have heats : tokenizer.Eats (' ' :: s) .start "@media".toList
      (.name .atKeyword .plain "media".toList) :=
    ⟨_, rfl, _, rfl, _, rfl, _, rfl, _, rfl, _, rfl, rfl⟩
  have hscan : tokenizer.scan .start ('@' :: ("media".toList ++ ' ' :: s)) =
      (.name .atKeyword .plain "media".toList, "@media".toList ++ [], ' ' :: s) := by
    have hend := heats.scan_eq
    rwa [Lexer.scan_cons_none (L := tokenizer) (m := .name .atKeyword .plain "media".toList) rfl]
      at hend
  have hread : reads ('@' :: ("media".toList ++ ' ' :: s)) =
      .atKeyword "media".toList :: reads (' ' :: s) := by
    rw [reads, tokenize_cons, hscan]
    exact solid_solid _ rfl
  exact hread.trans (congrArg _ (reads_space rfl s))

/-- The last lexeme of a text, before what follows. -/
theorem tokenize_append {p q : List Char} (hq : Inert q) (hp : p ≠ []) :
    ∃ init m t, tokenize p = init ++ [tokenOf (m, t)] ∧
      tokenize (p ++ q) = init ++
        (tokenOf ((tokenizer.scan m q).1, t ++ (tokenizer.scan m q).2.1) ::
          tokenize (tokenizer.scan m q).2.2) := by
  obtain ⟨init, m, t, hlex, hlex'⟩ :=
    Lexer.lex_append (localAt_tokenizer hq) p.length p (Nat.le_refl _) hp
  refine ⟨init.map tokenOf, m, t, ?_, ?_⟩
  · rw [tokenize, hlex, List.map_append]
    rfl
  · rw [tokenize, hlex', List.map_append]
    rfl

/-- A text that is over, and what follows it. -/
theorem reads_append {p q : List Char} (hq : Inert q)
    (hp : ∀ t, (tokenize p).getLast? = some t → t.settled = true) :
    reads (p ++ q) = reads p ++ reads q := by
  by_cases hnil : p = []
  · rw [hnil]
    rfl
  · obtain ⟨init, m, t, hlex, hlex'⟩ := tokenize_append hq hnil
    have hm : m.settled = true := hp (tokenOf (m, t)) (by rw [hlex, List.getLast?_concat])
    obtain ⟨hkind, hrest⟩ := scan_settled hq hm
    have hreads : reads (tokenizer.scan m q).2.2 = reads q := by
      rcases hrest with hsame | hspace
      · rw [hsame]
      · exact (reads_space (by decide) _).symm.trans (congrArg reads hspace.symm)
    rw [reads, reads, hlex, hlex', solid_append, solid_append, solid_cons, List.append_assoc,
      show solid (tokenize (tokenizer.scan m q).2.2) = reads q from hreads]
    simp only [tokenOf, hkind, solid_cons, solid_nil]
    split <;> rfl

/-- Parts that read the same before anything, one behind the other. -/
theorem reads_list {α : Type} {print : α → List Char} {kinds : α → List Kind} {as : List α}
    (h : ∀ a ∈ as, ∀ s, reads (print a ++ s) = kinds a ++ reads s) (s : List Char) :
    reads ((as.map print).flatten ++ s) = (as.map kinds).flatten ++ reads s := by
  induction as with
  | nil => rfl
  | cons a as ih =>
    rw [List.map_cons, List.flatten_cons, List.append_assoc, h a List.mem_cons_self,
      ih fun b hb => h b (List.mem_cons_of_mem _ hb), List.map_cons, List.flatten_cons,
      List.append_assoc]

/-! ## 4. A text that is not over -/

theorem plain_name (of : NameOf) (esc : Esc) (value : List Char) :
    (Mode.name of esc value).kind.plain = true := by cases of <;> rfl

theorem plain_fixed (text : List Char) (left : Nat) : (Mode.fixed text left).kind.plain = true := by
  simp only [Mode.kind]
  split
  · rfl
  · split <;> rfl

theorem plain_nameStep {of : NameOf} {esc : Esc} {value s : List Char} {c : Char} {m' : Mode}
    (h : Mode.nameStep of esc value c s = some m') :
    m'.kind.plain = true ∨ c = '(' ∧ ∃ name, m' = .function name := by
  unfold Mode.nameStep at h
  split at h
  · exact .inl (Option.some.inj h ▸ plain_name _ _ _)
  · simp only at h
    split at h
    · exact .inl (Option.some.inj h ▸ plain_name _ _ _)
    · split at h
      · exact .inl (Option.some.inj h ▸ plain_name _ _ _)
      · split at h
        · next hopen =>
          split at h
          · exact .inl (Option.some.inj h ▸ rfl)
          · exact .inr ⟨hopen.2, _, (Option.some.inj h).symm⟩
        · exact absurd h (by simp)

theorem plain_stringStep {quote c : Char} {esc : Esc} {s : List Char} {m' : Mode}
    (h : Mode.stringStep quote esc c s = some m') : m'.kind.plain = true := by
  unfold Mode.stringStep at h
  split at h
  · exact Option.some.inj h ▸ rfl
  · split at h
    · exact Option.some.inj h ▸ rfl
    · split at h
      · exact absurd h (by simp)
      · split at h <;> exact Option.some.inj h ▸ rfl

theorem plain_unitStep {c : Char} {s : List Char} {m' : Mode} (h : Mode.unitStep c s = some m') :
    m'.kind.plain = true := by
  unfold Mode.unitStep at h
  split at h
  · exact Option.some.inj h ▸ rfl
  · split at h
    · split at h <;> exact Option.some.inj h ▸ rfl
    · exact absurd h (by simp)

theorem plain_numberStep {part : NumberPart} {c : Char} {s : List Char} {m' : Mode}
    (h : Mode.numberStep part c s = some m') : m'.kind.plain = true := by
  cases part with
  | sign =>
    simp only [Mode.numberStep] at h
    split at h <;> exact Option.some.inj h ▸ rfl
  | integer =>
    simp only [Mode.numberStep] at h
    split at h
    · exact Option.some.inj h ▸ rfl
    · split at h
      · exact Option.some.inj h ▸ rfl
      · split at h
        · exact Option.some.inj h ▸ rfl
        · exact plain_unitStep h
  | point => exact Option.some.inj h ▸ rfl
  | fraction =>
    simp only [Mode.numberStep] at h
    split at h
    · exact Option.some.inj h ▸ rfl
    · split at h
      · exact Option.some.inj h ▸ rfl
      · exact plain_unitStep h
  | mark =>
    simp only [Mode.numberStep] at h
    split at h <;> exact Option.some.inj h ▸ rfl
  | exponent =>
    simp only [Mode.numberStep] at h
    split at h
    · exact Option.some.inj h ▸ rfl
    · exact plain_unitStep h

theorem plain_badUrlStep (escaped : Bool) (c : Char) (s : List Char) :
    (Mode.badUrlStep escaped c s).kind.plain = true := by
  unfold Mode.badUrlStep
  split
  · rfl
  · split
    · rfl
    · split <;> rfl

theorem plain_urlStep (part : UrlPart) (esc : Esc) (c : Char) (s : List Char) :
    (Mode.urlStep part esc c s).kind.plain = true := by
  unfold Mode.urlStep
  split
  · rfl
  · split
    · rfl
    · split
      · split <;> rfl
      · split
        · exact plain_badUrlStep _ _ _
        · split
          · rfl
          · split
            · split <;> rfl
            · rfl

/-- A lexeme that goes on becomes a bracket only behind its name. -/
theorem plain_step {m m' : Mode} {c : Char} {s : List Char} (hm : m.kind.plain = true)
    (h : tokenizer.step m c s = some m') :
    m'.kind.plain = true ∨ c = '(' ∧ ∃ name, m' = .function name := by
  rw [tokenizer_step] at h
  cases m with
  | start | punct _ | function _ => exact absurd hm (by simp [Mode.kind, Kind.plain])
  | name of esc value => exact plain_nameStep h
  | whitespace =>
    simp only [Mode.step] at h
    split at h
    · exact .inl (Option.some.inj h ▸ rfl)
    · exact absurd h (by simp)
  | commentOpen => exact .inl (Option.some.inj h ▸ rfl)
  | comment star =>
    simp only [Mode.step] at h
    split at h <;> exact .inl (Option.some.inj h ▸ rfl)
  | string quote esc => exact .inl (plain_stringStep h)
  | number part => exact .inl (plain_numberStep h)
  | url part esc => exact .inl (Option.some.inj h ▸ plain_urlStep part esc c s)
  | badUrl escaped => exact .inl (Option.some.inj h ▸ plain_badUrlStep escaped c s)
  | fixed text left =>
    cases left with
    | zero => exact absurd h (by simp [Mode.step])
    | succ left => exact .inl (Option.some.inj h ▸ plain_fixed text left)
  | commentEnd | stringEnd | percentage | urlEnd | badUrlEnd => exact absurd h (by simp [Mode.step])

theorem plain_scan {m : Mode} {q : List Char} (hm : m.kind.plain = true) (hq : '(' ∉ q) :
    (tokenizer.scan m q).1.kind.plain = true := by
  induction q generalizing m with
  | nil => exact hm
  | cons c q ih =>
    cases hstep : tokenizer.step m c q with
    | none =>
      rw [Lexer.scan_cons_none hstep]
      exact hm
    | some m' =>
      rw [Lexer.scan_cons_some hstep]
      rcases plain_step hm hstep with hplain | ⟨rfl, -⟩
      · exact ih hplain fun hmem => hq (List.mem_cons_of_mem _ hmem)
      · exact absurd List.mem_cons_self hq

/-- Where a lexeme ends that is, so far, no bracket. -/
theorem scan_plain {m : Mode} (q : List Char) (hm : m.kind.plain = true) :
    (tokenizer.scan m q).1.kind.plain = true ∨ ∃ name, (tokenizer.scan m q).1 = .function name := by
  induction q generalizing m with
  | nil => exact .inl hm
  | cons c q ih =>
    cases hstep : tokenizer.step m c q with
    | none =>
      rw [Lexer.scan_cons_none hstep]
      exact .inl hm
    | some m' =>
      rw [Lexer.scan_cons_some hstep]
      rcases plain_step hm hstep with hplain | ⟨-, name, rfl⟩
      · exact ih hplain
      · refine .inr ⟨name, ?_⟩
        cases q with
        | nil => rfl
        | cons d q => rw [Lexer.scan_cons_none rfl]

/-- What a lexeme that starts with a character can be so far: no bracket, or that character. -/
def StartsAs (c : Char) (m : Mode) : Prop := m.kind.plain = true ∨ m = .punct c

theorem StartsAs.ite {c : Char} {p : Prop} [Decidable p] {m n : Mode} (hm : StartsAs c m)
    (hn : StartsAs c n) : StartsAs c (if p then m else n) := by
  split
  · exact hm
  · exact hn

theorem first_startsAs (c : Char) (s : List Char) : StartsAs c (Mode.first c s) := by
  have hpunct : StartsAs c (.punct c) := .inr rfl
  unfold Mode.first
  refine .ite (.inl rfl) <| .ite (.inl rfl) <| .ite (.inl rfl) ?_
  refine .ite (.ite (.inl rfl) hpunct) <| .ite (.ite (.inl rfl) hpunct) ?_
  refine .ite (.ite (.inl rfl) <| .ite (.inl rfl) <| .ite (.inl rfl) hpunct) ?_
  refine .ite (.ite (.inl rfl) hpunct) <| .ite (.inl rfl) <| .ite (.inl rfl) ?_
  exact .ite (.inl rfl) <| .ite (.inl rfl) <| .ite (.inl rfl) <| .ite (.inl (plain_fixed _ _)) hpunct

/-- A lexeme that is not settled is no bracket. -/
theorem plain_of_unsettled {s : List Char} {t : Token} (ht : t ∈ tokenize s)
    (hsettled : t.settled = false) : t.kind.plain = true := by
  induction hn : s.length using Nat.strongRecOn generalizing s with
  | ind n ih =>
    cases s with
    | nil => exact absurd ht (by simp [tokenize])
    | cons c s =>
      rw [tokenize_cons] at ht
      rcases List.mem_cons.mp ht with rfl | ht
      · rw [Lexer.scan_cons_some (step_start c s)] at hsettled ⊢
        rcases first_startsAs c s with hplain | hpunct
        · rcases scan_plain s hplain with hend | ⟨name, hend⟩
          · exact hend
          · exact absurd hsettled (by simp [tokenOf, hend, Mode.settled])
        · exact absurd hsettled (by simp [tokenOf, hpunct, scan_punct, Mode.settled])
      · exact ih _ (hn ▸ Lexer.scan_start_rest_lt c s) ht rfl

/-- A character that is read as a token is one of the text. -/
theorem mem_of_punct {s : List Char} {t : Token} {c : Char} (ht : t ∈ tokenize s)
    (hc : t.kind = .punct c) : c ∈ s := by
  induction hn : s.length using Nat.strongRecOn generalizing s with
  | ind n ih =>
    cases s with
    | nil => exact absurd ht (by simp [tokenize])
    | cons d s =>
      rw [tokenize_cons] at ht
      rcases List.mem_cons.mp ht with rfl | ht
      · rw [Lexer.scan_cons_some (step_start d s)] at hc
        rcases first_startsAs d s with hplain | hpunct
        · rcases scan_plain s hplain with hend | ⟨name, hend⟩
          · exact absurd hend (by simp only [tokenOf] at hc; simp [hc, Kind.plain])
          · exact absurd hc (by simp [tokenOf, hend, Mode.kind])
        · simp only [tokenOf, hpunct, scan_punct, Mode.kind, Kind.punct.injEq] at hc
          exact hc ▸ List.mem_cons_self
      · have hsuffix : (tokenizer.scan .start (d :: s)).2.2 <:+ d :: s :=
          ⟨_, Lexer.scan_split _ _⟩
        exact hsuffix.subset (ih _ (hn ▸ Lexer.scan_start_rest_lt d s) ht rfl)

theorem mem_of_reads {s : List Char} {c : Char} (h : .punct c ∈ reads s) : c ∈ s := by
  rw [reads, solid, List.mem_filter, List.mem_map] at h
  obtain ⟨⟨t, ht, hkind⟩, -⟩ := h
  exact mem_of_punct ht hkind

/-- A text and what follows it: its last lexeme may go on, and what is left is read by itself. -/
theorem reads_append_open {p q : List Char} (hq : Inert q) (hbracket : '(' ∉ q) :
    ∃ init ls r, init <+: reads p ∧ reads (p ++ q) = init ++ ls ++ reads r ∧
      (∀ k ∈ ls, k.plain = true) ∧ r <:+ q := by
  by_cases hsettled : ∀ t, (tokenize p).getLast? = some t → t.settled = true
  · exact ⟨reads p, [], q, List.prefix_refl _, by simpa using reads_append hq hsettled, by simp,
      List.suffix_refl q⟩
  obtain ⟨t, hlast, hopen⟩ : ∃ t, (tokenize p).getLast? = some t ∧ t.settled = false := by
    simpa using hsettled
  have hnil : p ≠ [] := by
    rintro rfl
    exact absurd hlast (by simp [tokenize])
  obtain ⟨init, m, text, hlex, hlex'⟩ := tokenize_append hq hnil
  rw [hlex, List.getLast?_concat, Option.some.injEq] at hlast
  have hmem : t ∈ tokenize p := by
    rw [hlex, ← hlast]
    exact List.mem_append_right _ List.mem_cons_self
  have hplain : m.kind.plain = true := by
    have hkind := plain_of_unsettled hmem hopen
    rwa [← hlast] at hkind
  refine ⟨solid init, solid [tokenOf ((tokenizer.scan m q).1, text ++ (tokenizer.scan m q).2.1)],
    (tokenizer.scan m q).2.2, ?_, ?_, fun k hk => ?_, ⟨_, Lexer.scan_split _ _⟩⟩
  · rw [reads, hlex, solid_append]
    exact List.prefix_append _ _
  · rw [reads, hlex', List.append_assoc, reads, ← solid_append, ← solid_append]
    rfl
  · simp only [solid, List.map_cons, List.map_nil, List.mem_filter, List.mem_cons, List.not_mem_nil,
      or_false] at hk
    rw [hk.1]
    exact plain_scan hplain hbracket

end Css
