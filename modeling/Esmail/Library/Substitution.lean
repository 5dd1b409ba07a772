/-
# Replacing a text in a text

`str::replace`, and when it does what a writer who sees the parts of a text would do.  The text is
given as a list of parts, and some of them, the targets, are the text to replace.  `replace` looks
for it anywhere, so it may also find it across the border of two parts or within one.

`replace_flatMap_iff` says that replacing every target is what comes out exactly where the text
begins at no place of any other part.  Lean's `String.replace` is the same operation
(`toList_replace`).
-/
import Mathlib.Data.List.Basic
import Mathlib.Data.List.Infix

namespace RustText

/-! ## 1. The operation -/

/-- The rest of a replacement, where the first `skip` characters belong to the last match. -/
def replaceFrom (sub new : List Char) : Nat → List Char → List Char
  | _, [] => []
  | skip + 1, _ :: s => replaceFrom sub new skip s
  | 0, c :: s =>
    if sub.isPrefixOf (c :: s) then new ++ replaceFrom sub new (sub.length - 1) s
    else c :: replaceFrom sub new 0 s

/-- `str::replace`, of a text that is not empty: all of its occurrences from the left that do not
overlap. -/
def replace (sub new s : List Char) : List Char := replaceFrom sub new 0 s

theorem replaceFrom_append (sub new s : List Char) :
    ∀ skipped : List Char, replaceFrom sub new skipped.length (skipped ++ s) = replace sub new s
  | [] => rfl
  | _ :: skipped => replaceFrom_append sub new s skipped

theorem replace_here {c : Char} (sub new s : List Char) :
    replace (c :: sub) new (c :: sub ++ s) = new ++ replace (c :: sub) new s := by
  have hpre : (c :: sub).isPrefixOf (c :: (sub ++ s)) = true :=
    List.isPrefixOf_iff_prefix.mpr ⟨s, rfl⟩
  rw [replace, List.cons_append, replaceFrom, if_pos hpre]
  exact congrArg (new ++ ·) (replaceFrom_append (c :: sub) new s sub)

theorem replace_cons {sub new s : List Char} {c : Char} (h : ¬ sub <+: c :: s) :
    replace sub new (c :: s) = c :: replace sub new s := by
  have hpre : ¬ sub.isPrefixOf (c :: s) = true := fun hp => h (List.isPrefixOf_iff_prefix.mp hp)
  rw [replace, replaceFrom, if_neg hpre]
  rfl

/-- Where no occurrence begins, nothing changes. -/
theorem replace_append {sub new s : List Char} : ∀ {t : List Char},
    (∀ y, y ≠ [] → y <:+ t → ¬ sub <+: y ++ s) → replace sub new (t ++ s) = t ++ replace sub new s
  | [], _ => rfl
  | c :: t, h => by
    have hhere : ¬ sub <+: c :: (t ++ s) := h (c :: t) (List.cons_ne_nil c t) (List.suffix_refl _)
    rw [List.cons_append, replace_cons hhere,
      replace_append fun y hne hy => h y hne (hy.trans (List.suffix_cons c t)), List.cons_append]

/-! ## 2. Parts -/

section Parts

variable {α : Type} {c d : Char} {sub new : List Char}

/-- A part stays as it is exactly where the text begins nowhere in it: what is put in begins
differently. -/
theorem replace_append_iff (hcd : c ≠ d) (s t : List Char) : ∀ part : List Char,
    replace (c :: sub) (d :: new) (part ++ s) = part ++ t ↔
      (∀ y, y ≠ [] → y <:+ part → ¬ c :: sub <+: y ++ s) ∧ replace (c :: sub) (d :: new) s = t
  | [] => by
    refine ⟨fun h => ⟨fun y hne hy => absurd (List.suffix_nil.mp hy) hne, h⟩, fun h => h.2⟩
  | e :: part => by
    have ih := replace_append_iff hcd s t part
    by_cases hhere : c :: sub <+: e :: (part ++ s)
    · obtain ⟨u, hu⟩ := hhere
      have hhead : c = e := by simpa using congrArg List.head? hu
      refine ⟨fun h => ?_, fun h => absurd ⟨u, hu⟩ (h.1 _ (List.cons_ne_nil e part)
        (List.suffix_refl _))⟩
      rw [List.cons_append, ← hu, replace_here] at h
      have hfirst : d = e := by simpa using congrArg List.head? h
      exact absurd (hhead.trans hfirst.symm) hcd
    · rw [List.cons_append, replace_cons hhere, List.cons_append, List.cons.injEq, ih]
      refine ⟨fun ⟨_, hnone, hrest⟩ => ⟨fun y hne hy => ?_, hrest⟩,
        fun ⟨hnone, hrest⟩ => ⟨rfl, fun y hne hy => hnone y hne (hy.trans (List.suffix_cons e part)),
          hrest⟩⟩
      rcases List.suffix_cons_iff.mp hy with rfl | hy
      · exact hhere
      · exact hnone y hne hy

/-- The text begins at no place of a part other than the targets. -/
def BeginsOnlyAt (sub : List Char) (target : α → Prop) (text : α → List Char) : List α → Prop
  | [] => True
  | a :: rest =>
    (¬ target a → ∀ y, y ≠ [] → y <:+ text a → ¬ sub <+: y ++ rest.flatMap text) ∧
      BeginsOnlyAt sub target text rest

/-- The targets, and nothing else, are replaced, exactly where the text begins only at them. -/
theorem replace_flatMap_iff (hcd : c ≠ d) {target : α → Prop} {text text' : α → List Char}
    (htarget : ∀ a, target a → text a = c :: sub ∧ text' a = d :: new)
    (hother : ∀ a, ¬ target a → text' a = text a) : ∀ parts : List α,
    replace (c :: sub) (d :: new) (parts.flatMap text) = parts.flatMap text' ↔
      BeginsOnlyAt (c :: sub) target text parts
  | [] => by simp [replace, replaceFrom, BeginsOnlyAt]
  | a :: rest => by
    have ih := replace_flatMap_iff hcd htarget hother rest
    rw [List.flatMap_cons, List.flatMap_cons, BeginsOnlyAt]
    by_cases ha : target a
    · obtain ⟨hold, hnew⟩ := htarget a ha
      rw [hold, hnew, replace_here, List.append_cancel_left_eq, ih]
      exact ⟨fun h => ⟨fun hna => absurd ha hna, h⟩, fun h => h.2⟩
    · rw [hother a ha, replace_append_iff hcd, ih]
      exact ⟨fun h => ⟨fun _ => h.1, h.2⟩, fun h => ⟨h.1 ha, h.2⟩⟩

/-- So where the text stands at all, there is a target. -/
theorem exists_target_of_infix (hne : sub ≠ []) {target : α → Prop} {text : α → List Char} :
    ∀ {parts : List α}, BeginsOnlyAt sub target text parts → sub <:+: parts.flatMap text →
      ∃ a ∈ parts, target a
  | [], _, hinfix => absurd (List.infix_nil.mp hinfix) hne
  | a :: rest, ⟨hnone, hbegins⟩, hinfix => by
    by_cases ha : target a
    · exact ⟨a, List.mem_cons_self, ha⟩
    · have hrest : sub <:+: rest.flatMap text := by
        obtain ⟨y, hpre, u, hu⟩ := List.infix_iff_prefix_suffix.mp hinfix
        rw [List.flatMap_cons] at hu
        rcases List.append_eq_append_iff.mp hu with ⟨v, hv, hy⟩ | ⟨v, hv, hy⟩
        · by_cases hvnil : v = []
          · rw [hy, hvnil] at hpre
            exact hpre.isInfix
          · exact absurd (hy ▸ hpre) (hnone ha v hvnil ⟨u, hv.symm⟩)
        · exact hpre.isInfix.trans ⟨v, [], by rw [hy, List.append_nil]⟩
      obtain ⟨b, hb, htarget⟩ := exists_target_of_infix hne hbegins hrest
      exact ⟨b, List.mem_cons_of_mem a hb, htarget⟩

end Parts

/-! ## 3. Strings -/

section Strings

open String.Slice.Pattern String.Slice.Pattern.Model

/-- One step of `String.replace`. -/
def replaceStep (new : String) {s : String.Slice} (sofar : String) : SearchStep s → String
  | .matched _ _ => sofar ++ new
  | .rejected start stop => sofar ++ (s.slice! start stop).copy

/-- The steps of a search from a position put together the rest with its occurrences replaced. -/
theorem toList_foldl_steps {pat : String} (hpat : pat ≠ "") (new : String) {s : String.Slice} {pos : s.Pos}
    {l : List (SearchStep s)} (h : IsValidSearchFrom pat pos l) (t₁ t₂ : String) (hpos : pos.Splits t₁ t₂)
    (acc : String) :
    (l.foldl (replaceStep new) acc).toList =
      acc.toList ++ replace pat.toList new.toList t₂.toList := by
  induction h generalizing t₁ t₂ acc with
  | endPos =>
    obtain ⟨-, rfl⟩ := String.Slice.splits_endPos_iff.mp hpos
    simp [replace, replaceFrom]
  | matched hmatch _ ih =>
    obtain ⟨u₁, u₂, hstart, hend⟩ := ForwardStringSearcher.isLongestMatchAt_iff_splits.mp hmatch
    obtain ⟨rfl, rfl⟩ := hpos.eq hstart
    have hne : pat.toList ≠ [] := by simpa using hpat
    obtain ⟨c, sub, hsub⟩ := List.exists_cons_of_ne_nil hne
    rw [List.foldl_cons, ih _ _ hend, replaceStep, String.toList_append, String.toList_append, hsub,
      replace_here, List.append_assoc]
  | @mismatched l start stop hlt hnone _ ih =>
    obtain ⟨u, -, hu₁, hu₂⟩ := (hpos.lt_iff_exists_eq_append stop.splits).mp hlt
    have hstop := stop.splits
    rw [hu₁] at hstop
    subst hu₂
    have hcopy : (s.slice! start stop).copy = u := by
      obtain ⟨hle, hslice⟩ := String.Slice.copy_slice_eq_iff_splits.mpr ⟨_, _, hpos, hstop⟩
      rw [← String.Slice.slice_eq_slice! (h := hle), hslice]
    rw [List.foldl_cons, ih _ _ hstop, replaceStep, hcopy, String.toList_append, String.toList_append,
      List.append_assoc, replace_append]
    rintro y hne ⟨x, hxy⟩ ⟨r, hr⟩
    have hu : u = String.ofList x ++ String.ofList y := by
      rw [← String.ofList_append, hxy, String.ofList_toList]
    have hafter : String.ofList y ++ (s.sliceFrom stop).copy = pat ++ String.ofList r := by
      apply String.toList_injective
      rw [String.toList_append, String.toList_append, String.toList_ofList, String.toList_ofList, hr]
    have hall : s.copy = (t₁ ++ String.ofList x) ++ (String.ofList y ++ (s.sliceFrom stop).copy) := by
      rw [hpos.eq_append, hu]
      simp only [String.append_assoc]
    have hp := String.Slice.Pos.splits_ofEqAppend hall
    refine hnone _ ((hpos.le_iff_exists_eq_append hp).mpr ⟨String.ofList x, rfl, ?_⟩)
      ((hp.lt_iff_exists_eq_append hstop).mpr ⟨String.ofList y, by simpa using hne, ?_, rfl⟩) ?_
    · rw [hu, String.append_assoc]
    · rw [hu, String.append_assoc]
    · exact ForwardStringSearcher.matchesAt_iff_splits.mpr ⟨_, _, hp.of_eq rfl hafter⟩

/-- `String.replace`, of a text that is not empty. -/
theorem toList_replace {pat : String} (hpat : pat ≠ "") (new s : String) :
    (s.replace pat new).toList = replace pat.toList new.toList s.toList := by
  have hlawful := ForwardStringSearcher.lawfulToForwardSearcherModel hpat
  have hvalid := hlawful.isValidSearchFrom_toList s.toSlice
  have hsteps := toList_foldl_steps hpat new hvalid "" s (by simp) ""
  rw [String.toList_empty, List.nil_append] at hsteps
  rw [String.replace, String.Slice.replace, ← Std.Iter.foldl_toList, ← hsteps]
  refine congrArg String.toList (List.foldl_ext _ _ "" fun sofar step _ => ?_)
  cases step with
  | matched => exact congrArg (sofar ++ ·) String.copy_toSlice
  | rejected start stop => rfl

end Strings

end RustText
