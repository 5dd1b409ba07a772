/-
# Attachments, and what becomes of each part

Three walks over a message decide what its reader sees: `find_html` and `find_text` take the body,
`resolve_cid_parts` puts images into it, and `extract_attachments` lists the rest.  Each leaves out
what it takes to be the business of another.

`attachments_complete_iff` is about every tree of parts that decode: the list has one entry for each
listed part, in document order; and nothing falls between the walks, exactly where no text is marked as an
attachment, and every other part with a `Content-ID` is either so marked or put into the body.

A leaf that is marked is on the list unless it is a text (`marked_listed_iff`); one that is not marked is
the body, another text than the body, on the list, or an image that waits for its reference
(`accounted_iff`).  The last is the one that can be lost, and `Inlined` says when it is not: its text is
in the body when its turn comes, after the parts before it.

Where the parts' texts keep apart, as `InlineImages.lean` asks, that is where the body refers to it
(`inlined_iff_reference`).
-/
import Esmail.Cache.Tables
import Esmail.Rendering.InlineImages

namespace Esmail

open RustText ParsedMail

/-! ## 1. The list of attachments -/

namespace ParsedMail

def isLeaf (part : ParsedMail) : Bool := part.subparts.isEmpty

/-- One of the types that the body is chosen from. -/
def isText (part : ParsedMail) : Bool := part.mimetype == textPlain || part.mimetype == textHtml

/-- Marked as an attachment. -/
def isMarked (part : ParsedMail) : Bool := part.disposition == .attachment

/-- What `extract_attachments` makes of a part. -/
def attachmentOf (part : ParsedMail) : Option Attachment :=
  if ¬ part.isLeaf then none
  else if part.isText then none
  else
    let hasCid := part.contentId.isSome
    let isAttachment := part.isMarked || !hasCid
    if ¬ isAttachment then none
    else
      let filename := ((part.filename).or part.name).getD "attachment"
      match part.bodyRaw with
      | none => none
      | some data => some ⟨filename, String.ofList part.mimetype, data⟩

/-- `extract_attachments`, of a message that can be parsed. -/
def attachments (root : ParsedMail) : List Attachment := root.allParts.filterMap attachmentOf

end ParsedMail

/-- `extract_attachments`, where `parseMail` is `mailparse::parse_mail`. -/
def extractAttachments (parseMail : List UInt8 → Option ParsedMail) (raw : List UInt8) :
    List Attachment :=
  match parseMail raw with
  | none => []
  | some parsed => parsed.attachments

/-- The parts that are listed. -/
def ParsedMail.listed (root : ParsedMail) : List ParsedMail :=
  root.allParts.filter fun part => part.attachmentOf.isSome

/-! ## 2. What becomes of a part -/

/-- Its text is the body that is rendered. -/
def Rendered (root part : ParsedMail) : Prop :=
  part.body ≠ none ∧
    (part.mimetype = textHtml ∧ root.findHtml = part.body ∨
      part.mimetype = textPlain ∧ root.findHtml = none ∧ root.findText = part.body)

/-- It is put into the body: the text of its reference is there when its turn comes, after the parts
before it. -/
def Inlined (encode : List UInt8 → List Char) (root : ParsedMail) (before : List ParsedMail)
    (part : ParsedMail) : Prop :=
  ∃ html cid url, root.findHtml = some html ∧ part.inlineImage encode = some (cid, url) ∧
    cidColon ++ cid <:+: resolveParts encode html before

/-- Nothing is lost: the leaves that are marked are all listed, once and in order, and every leaf is
the body, another text that is not marked, put into the body, or listed. -/
structure NothingLost (encode : List UInt8 → List Char) (root : ParsedMail) : Prop where
  marked_listed : root.listed.filter isMarked =
    root.allParts.filter fun part => part.isLeaf && part.isMarked
  accounted : ∀ before part after, root.allParts = before ++ part :: after → part.isLeaf →
    Rendered root part ∨ (part.isText ∧ ¬ part.isMarked) ∨ Inlined encode root before part ∨
      part.attachmentOf.isSome

/-- The entries of the list are those of the parts that have one, in document order. -/
theorem attachments_eq (root : ParsedMail) :
    root.attachments.map some = root.listed.map attachmentOf := by
  rw [attachments, listed]
  induction root.allParts with
  | nil => rfl
  | cons part parts ih =>
    cases h : part.attachmentOf with
    | none => simpa [h] using ih
    | some attachment => simpa [h] using ih

theorem attachmentOf_isSome_iff {part : ParsedMail} (hraw : part.isLeaf → part.bodyRaw ≠ none) :
    part.attachmentOf.isSome ↔
      part.isLeaf ∧ ¬ part.isText ∧ (part.isMarked ∨ part.contentId = none) := by
  rw [attachmentOf]
  by_cases hleaf : part.isLeaf = true
  · obtain ⟨data, hdata⟩ := Option.ne_none_iff_exists'.mp (hraw hleaf)
    by_cases htext : part.isText = true
    · simp [hleaf, htext]
    · by_cases hmarked : part.isMarked = true <;> cases part.contentId <;>
        simp [hleaf, htext, hmarked, hdata]
  · simp [hleaf]

/-! ## 3. When nothing is lost -/

section Complete

variable {encode : List UInt8 → List Char} {root part : ParsedMail} {before : List ParsedMail}

theorem marked_listed_iff (hraw : ∀ part ∈ root.allParts, part.isLeaf → part.bodyRaw ≠ none) :
    (root.listed.filter isMarked = root.allParts.filter fun part => part.isLeaf && part.isMarked) ↔
      ∀ part ∈ root.allParts, part.isLeaf → part.isMarked → ¬ part.isText := by
  refine ⟨fun hlisted part hpart hleaf hmarked => ?_, fun hmarkedText => ?_⟩
  · have hmem : part ∈ root.allParts.filter fun part => part.isLeaf && part.isMarked :=
      List.mem_filter.mpr ⟨hpart, by simp [hleaf, hmarked]⟩
    rw [← hlisted, listed] at hmem
    have hsome := (List.mem_filter.mp (List.mem_filter.mp hmem).1).2
    exact ((attachmentOf_isSome_iff (hraw part hpart)).mp hsome).2.1
  · rw [listed, List.filter_filter]
    refine List.filter_congr fun part hpart => ?_
    have hsome := attachmentOf_isSome_iff (hraw part hpart)
    have htext := hmarkedText part hpart
    rw [Bool.eq_iff_iff]
    simp only [Bool.and_eq_true, hsome]
    exact ⟨fun ⟨hm, hl, _⟩ => ⟨hl, hm⟩, fun ⟨hl, hm⟩ => ⟨hm, hl, htext hl hm, .inl hm⟩⟩

/-- Of the leaves, only those that wait for a reference can be lost, where no text is marked. -/
theorem accounted_iff (hraw : part.isLeaf → part.bodyRaw ≠ none) (hleaf : part.isLeaf)
    (hmarkedText : part.isMarked → ¬ part.isText) :
    (Rendered root part ∨ (part.isText ∧ ¬ part.isMarked) ∨ Inlined encode root before part ∨
        part.attachmentOf.isSome) ↔
      (¬ part.isText → ¬ part.isMarked → part.contentId ≠ none →
        Inlined encode root before part) := by
  have hsome := attachmentOf_isSome_iff hraw
  refine ⟨fun h htext hmarked hcid => ?_, fun hinlined => ?_⟩
  · rcases h with hbody | ⟨htext', -⟩ | hinlined | hlisted
    · exfalso
      rcases hbody.2 with ⟨hmime, -⟩ | ⟨hmime, -⟩ <;> simp [isText, hmime] at htext
    · exact absurd htext' htext
    · exact hinlined
    · obtain ⟨-, -, hmarked' | hnone⟩ := hsome.mp hlisted
      · exact absurd hmarked' hmarked
      · exact absurd hnone hcid
  · by_cases hmarked : part.isMarked = true
    · exact .inr (.inr (.inr (hsome.mpr ⟨hleaf, hmarkedText hmarked, .inl hmarked⟩)))
    · by_cases htext : part.isText = true
      · exact .inr (.inl ⟨htext, hmarked⟩)
      · by_cases hcid : part.contentId = none
        · exact .inr (.inr (.inr (hsome.mpr ⟨hleaf, htext, .inr hcid⟩)))
        · exact .inr (.inr (.inl (hinlined htext hmarked hcid)))

/-- The list has one entry for each listed part, in order; and nothing is lost exactly where no text
is marked as an attachment, and each other part that has a `Content-ID` and is not marked is put into
the body. -/
theorem attachments_complete_iff (encode : List UInt8 → List Char) (root : ParsedMail)
    (hraw : ∀ part ∈ root.allParts, part.isLeaf → part.bodyRaw ≠ none) :
    root.attachments.map some = root.listed.map attachmentOf ∧
      (NothingLost encode root ↔
        (∀ part ∈ root.allParts, part.isLeaf → part.isMarked → ¬ part.isText) ∧
          ∀ before part after, root.allParts = before ++ part :: after → part.isLeaf →
            ¬ part.isText → ¬ part.isMarked → part.contentId ≠ none →
              Inlined encode root before part) := by
  refine ⟨attachments_eq root, ⟨fun ⟨hlisted, hall⟩ => ?_, fun ⟨hmarkedText, hinlined⟩ => ?_⟩⟩
  · have hmarkedText := (marked_listed_iff hraw).mp hlisted
    refine ⟨hmarkedText, fun before part after hparts hleaf => ?_⟩
    have hpart : part ∈ root.allParts := by simp [hparts]
    exact (accounted_iff (hraw part hpart) hleaf (hmarkedText part hpart hleaf)).mp
      (hall before part after hparts hleaf)
  · refine ⟨(marked_listed_iff hraw).mpr hmarkedText, fun before part after hparts hleaf => ?_⟩
    have hpart : part ∈ root.allParts := by simp [hparts]
    exact (accounted_iff (hraw part hpart) hleaf (hmarkedText part hpart hleaf)).mpr
      (hinlined before part after hparts hleaf)

end Complete

def htmlPart (html : String) : ParsedMail :=
  { mimetype := textHtml, body := some html.toList, bodyRaw := some [] }

/-- An inline image, a marked document, and a body that refers to the image. -/
def pictureLetter : ParsedMail :=
  { mimetype := "multipart/mixed".toList
    subparts := [htmlPart "<img src=\"cid:a\">", imageA,
      { mimetype := "application/pdf".toList, disposition := .attachment, bodyRaw := some [] }] }

theorem attachments_complete_iff_letter :
    NothingLost (fun _ => []) pictureLetter ∧ pictureLetter.attachments.length = 1 := by
  have hraw : ∀ part ∈ pictureLetter.allParts, part.isLeaf → part.bodyRaw ≠ none := by
    decide
  refine ⟨(attachments_complete_iff (fun _ => []) pictureLetter hraw).2.mpr ⟨by decide, ?_⟩,
    by decide⟩
  intro before part after hparts hleaf htext hmarked hcid
  rcases before with - | ⟨root, - | ⟨html, - | ⟨image, before⟩⟩⟩
  · obtain ⟨rfl, -⟩ := List.cons.inj hparts
    exact absurd rfl hcid
  · obtain ⟨-, hparts⟩ := List.cons.inj hparts
    obtain ⟨rfl, -⟩ := List.cons.inj hparts
    exact absurd rfl hcid
  · obtain ⟨hroot, hparts⟩ := List.cons.inj hparts
    obtain ⟨hhtml, hparts⟩ := List.cons.inj hparts
    obtain ⟨himage, -⟩ := List.cons.inj hparts
    subst hhtml himage
    rw [← show pictureLetter = root from hroot]
    exact ⟨_, _, _, rfl, rfl, "<img src=\"".toList, "\">".toList, by decide⟩
  · obtain ⟨-, hparts⟩ := List.cons.inj hparts
    obtain ⟨-, hparts⟩ := List.cons.inj hparts
    obtain ⟨-, hparts⟩ := List.cons.inj hparts
    rcases before with - | ⟨pdf, before⟩
    · obtain ⟨rfl, -⟩ := List.cons.inj hparts
      exact absurd rfl hmarked
    · obtain ⟨-, hparts⟩ := List.cons.inj hparts
      simp [allPartsOf] at hparts

/-- A letter in plain text with a text file, and one whose body does not show its image. -/
def textFile : ParsedMail :=
  { mimetype := textPlain, disposition := .attachment, filename := some "notes.txt"
    body := some "notes".toList, bodyRaw := some [] }

def letterWithTextFile : ParsedMail :=
  { mimetype := "multipart/mixed".toList
    subparts := [{ mimetype := textPlain, body := some "hello".toList, bodyRaw := some [] },
      textFile] }

def letterWithImage : ParsedMail :=
  { mimetype := "multipart/mixed".toList, subparts := [htmlPart "hello", imageA] }

/-- Neither is listed, and neither is seen. -/
theorem text_attachment_unlisted :
    letterWithTextFile.attachments = [] ∧ letterWithTextFile.findHtml = none ∧
      letterWithTextFile.findText = some "hello".toList ∧
      letterWithTextFile.allParts.map isMarked = [false, false, true] ∧
      letterWithImage.attachments = [] ∧
      resolveCidParts (fun _ => []) "hello".toList letterWithImage = "hello".toList ∧
      ¬ NothingLost (fun _ => []) letterWithTextFile ∧ ¬ NothingLost (fun _ => []) letterWithImage := by
  refine ⟨by decide, by decide, by decide, by decide,
    by decide, by decide, fun h => ?_, fun h => ?_⟩
  · have hlisted := congrArg List.length h.marked_listed
    revert hlisted
    decide
  · rcases h.accounted [letterWithImage, htmlPart "hello"] imageA [] rfl rfl with
      hbody | ⟨htext, -⟩ | ⟨html, cid, url, hhtml, himage, hinfix⟩ | hsome
    · exact hbody.1 rfl
    · exact absurd htext (by decide)
    · cases hhtml
      cases himage
      revert hinfix
      decide
    · exact absurd hsome (by decide)

/-! ## 4. Parts whose texts keep apart -/

/-- There a part is put in exactly where the body refers to it. -/
theorem inlined_iff_reference {encode : List UInt8 → List Char} {root part : ParsedMail}
    {html cid url : List Char} {before after : List ParsedMail}
    (hapart : Apart encode html root.allParts) (hnodup : (root.allParts.filterMap contentId).Nodup)
    (hhtml : root.findHtml = some html) (hparts : root.allParts = before ++ part :: after)
    (himage : part.inlineImage encode = some (cid, url)) :
    Inlined encode root before part ↔ .reference cid ∈ bodyPieces html := by
  have hcid := (contentId_of_inlineImage himage).1
  have hsub : (before ++ [part]).Sublist root.allParts := by
    rw [hparts]
    exact (List.Sublist.refl before).append (List.singleton_sublist.mpr List.mem_cons_self)
  have hcons := nodup_cons_of_append (hnodup.sublist (hsub.filterMap contentId))
  have hbefore : resolveParts encode html before = resolved encode html before :=
    resolveParts_eq hapart before ((List.sublist_append_left before [part]).trans hsub).subset
      (nodup_of_cons hcons)
  have hbegins := hapart before part cid url
    (fun p hp => hsub.subset ((List.perm_append_singleton part before).mem_iff.mpr hp)) hcons himage
  refine ⟨?_, fun hmem => ⟨html, cid, url, hhtml, himage, ?_⟩⟩
  · rintro ⟨html', cid', url', hhtml', himage', hinfix⟩
    rw [hhtml] at hhtml'
    rw [himage] at himage'
    cases hhtml'
    cases himage'
    rw [hbefore] at hinfix
    obtain ⟨piece, hpiece, rfl⟩ := exists_target_of_infix (by simp [cidColon]) hbegins hinfix
    exact hpiece
  · obtain ⟨first, rest, hsplit⟩ := List.append_of_mem hmem
    rw [hbefore, resolved, hsplit, List.flatMap_append, List.flatMap_cons, Piece.text,
      uriOf_eq_none hcid hcons, Option.getD_none, ← List.append_assoc]
    exact ⟨_, _, rfl⟩

end Esmail
