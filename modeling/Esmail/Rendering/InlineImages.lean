/-
# Inline images, and the references that name them

A message refers to one of its own parts by `cid:` and the part's `Content-ID`.  `resolve_cid_parts`
replaces, part after part, the text `cid:` and the id, wherever it stands: also where a longer id
begins with it, and inside a `data:` URL that an earlier round has put in.

`bodyPieces` reads the references of a body as a writer means them, and `resolved` replaces them all at
once.  `inline_images_iff` says when the rounds come to the same, for every selection of the parts and in
every order: exactly where no part's text begins anywhere but at a reference to it (`Apart`).  Where no id
has a delimiter in it, that is a statement about ids and URLs alone (`apart_iff`).

One round replaces every occurrence of a text, so it is right exactly where the text begins only at the
references (`resolvePart_iff`, by `Library/Substitution.lean`); all rounds are by induction on the parts,
the last one first (`resolveParts_append_singleton`).

It has to be every selection: for one list of parts alone, two wrong replacements can add up to the right
text.  The encoder of the URLs is any function.
-/
import Esmail.Rendering.Parts

namespace Esmail

open RustText ParsedMail

/-! ## 1. References -/

/-- A character of an id: no quote, white space, angle bracket or parenthesis. -/
def isIdChar (c : Char) : Bool :=
  !(isWhitespace c || c == '"' || c == '\'' || c == '<' || c == '>' || c == '(' || c == ')')

/-- A body, cut at its references. -/
inductive Piece
  | other (c : Char)
  | reference (id : List Char)
  deriving DecidableEq, Repr

/-- The pieces of the rest of a body, where the first `skip` characters belong to the last
reference. -/
def bodyPiecesFrom : Nat → List Char → List Piece
  | _, [] => []
  | skip + 1, _ :: s => bodyPiecesFrom skip s
  | 0, c :: s =>
    if cidColon.isPrefixOf (c :: s) then
      let id := (s.drop 3).takeWhile isIdChar
      .reference id :: bodyPiecesFrom (3 + id.length) s
    else .other c :: bodyPiecesFrom 0 s

def bodyPieces (html : List Char) : List Piece := bodyPiecesFrom 0 html

/-- The text of a piece, where some ids have a URL in their place. -/
def Piece.text (uri : List Char → Option (List Char)) : Piece → List Char
  | .other c => [c]
  | .reference id => (uri id).getD (cidColon ++ id)

theorem bodyPiecesFrom_eq_drop : ∀ (s : List Char) (skip : Nat),
    bodyPiecesFrom skip s = bodyPieces (s.drop skip)
  | [], _ => by simp [bodyPiecesFrom, bodyPieces]
  | _ :: _, 0 => rfl
  | _ :: s, skip + 1 => bodyPiecesFrom_eq_drop s skip

theorem bodyPieces_nil : bodyPieces [] = [] := rfl

theorem bodyPieces_reference (t : List Char) :
    bodyPieces (cidColon ++ t) =
      .reference (t.takeWhile isIdChar) :: bodyPieces (t.dropWhile isIdChar) := by
  have hcut : (t.takeWhile isIdChar ++ t.dropWhile isIdChar).drop (t.takeWhile isIdChar).length =
      t.dropWhile isIdChar := List.drop_left ..
  rw [List.takeWhile_append_dropWhile] at hcut
  have htext : cidColon ++ t = 'c' :: 'i' :: 'd' :: ':' :: t := rfl
  have hpre : cidColon.isPrefixOf ('c' :: 'i' :: 'd' :: ':' :: t) = true :=
    List.isPrefixOf_iff_prefix.mpr ⟨t, rfl⟩
  rw [htext, bodyPieces, bodyPiecesFrom, if_pos hpre]
  show .reference (t.takeWhile isIdChar) ::
    bodyPiecesFrom (3 + (t.takeWhile isIdChar).length) ('i' :: 'd' :: ':' :: t) = _
  rw [bodyPiecesFrom_eq_drop, Nat.add_comm 3]
  exact congrArg (fun u => _ :: bodyPieces u) hcut

theorem bodyPieces_other {c : Char} {s : List Char} (h : ¬ cidColon <+: c :: s) :
    bodyPieces (c :: s) = .other c :: bodyPieces s := by
  rw [bodyPieces, bodyPiecesFrom, if_neg fun hpre => h (List.isPrefixOf_iff_prefix.mp hpre)]
  rfl

/-- Induction along the pieces of a body. -/
theorem bodyPieces_induction {motive : List Char → Prop} (nil : motive [])
    (reference : ∀ t, motive (t.dropWhile isIdChar) → motive (cidColon ++ t))
    (other : ∀ c s, ¬ cidColon <+: c :: s → motive s → motive (c :: s)) (html : List Char) :
    motive html := by
  induction hlen : html.length using Nat.strong_induction_on generalizing html with
  | _ n ih =>
    rcases html with - | ⟨c, s⟩
    · exact nil
    · by_cases hpre : cidColon <+: c :: s
      · obtain ⟨t, ht⟩ := hpre
        have hshort := (List.dropWhile_sublist isIdChar (l := t)).length_le
        have htotal := congrArg List.length ht
        rw [List.length_append, hlen] at htotal
        rw [← ht]
        exact reference t (ih _ (by simp [cidColon] at htotal; omega) _ rfl)
      · exact other c s hpre (ih _ (by simp at hlen; omega) _ rfl)

/-- The pieces are the body. -/
theorem bodyPieces_text (html : List Char) :
    (bodyPieces html).flatMap (Piece.text fun _ => none) = html := by
  induction html using bodyPieces_induction with
  | nil => rfl
  | reference t ih =>
    rw [bodyPieces_reference, List.flatMap_cons, ih]
    simp [Piece.text, List.takeWhile_append_dropWhile]
  | other c s hpre ih =>
    rw [bodyPieces_other hpre, List.flatMap_cons, ih]
    rfl

section Images

variable (encode : List UInt8 → List Char)

/-- The URL for a reference, if the part is the one it names. -/
def imageFor (id : List Char) (part : ParsedMail) : Option (List Char) :=
  match part.inlineImage encode with
  | none => none
  | some (cid, url) => if cid = id then some url else none

/-- The URL of the part that an id names. -/
def uriOf (parts : List ParsedMail) (id : List Char) : Option (List Char) :=
  parts.findSome? (imageFor encode id)

/-- The body with each reference replaced by the URL of its own part. -/
def resolved (html : List Char) (parts : List ParsedMail) : List Char :=
  (bodyPieces html).flatMap (Piece.text (uriOf encode parts))

/-- Wherever the text of a part begins, in the body or in a URL that was put in for one of the
others, there is a reference to it. -/
def Apart (html : List Char) (parts : List ParsedMail) : Prop :=
  ∀ others part cid url, part :: others ⊆ parts →
    ((part :: others).filterMap contentId).Nodup → part.inlineImage encode = some (cid, url) →
      BeginsOnlyAt (cidColon ++ cid) (· = .reference cid) (Piece.text (uriOf encode others))
        (bodyPieces html)

/-! ## 2. One round -/

variable {encode} {id cid url html : List Char} {part : ParsedMail} {others : List ParsedMail}

theorem contentId_of_inlineImage (h : part.inlineImage encode = some (cid, url)) :
    part.contentId = some cid ∧ ∃ bytes, url = part.dataUrl encode bytes := by
  rw [inlineImage] at h
  split at h
  · cases h
  · next hcid =>
    split at h
    · cases h
    · next bytes hbytes =>
      cases h
      exact ⟨hcid, bytes, rfl⟩

theorem imageFor_eq_some {url : List Char} :
    imageFor encode id part = some url ↔ part.inlineImage encode = some (id, url) := by
  rw [imageFor]
  rcases part.inlineImage encode with - | ⟨cid, url'⟩
  · simp
  · by_cases hid : cid = id <;> simp [hid]

theorem contentId_of_imageFor (h : imageFor encode id part ≠ none) : part.contentId = some id := by
  obtain ⟨url, himage⟩ := Option.ne_none_iff_exists'.mp h
  exact (contentId_of_inlineImage (imageFor_eq_some.mp himage)).1

/-- Where the ids differ, none of the others answers for a part. -/
theorem uriOf_eq_none (hcid : part.contentId = some cid)
    (hnodup : ((part :: others).filterMap contentId).Nodup) : uriOf encode others cid = none := by
  rw [List.filterMap_cons_some hcid, List.nodup_cons] at hnodup
  refine List.findSome?_eq_none_iff.mpr fun other hother => ?_
  by_contra hne
  exact hnodup.1 (List.mem_filterMap.mpr ⟨other, hother, contentId_of_imageFor hne⟩)

theorem nodup_of_cons (h : ((part :: others).filterMap contentId).Nodup) :
    (others.filterMap contentId).Nodup :=
  h.sublist ((List.sublist_cons_self part others).filterMap contentId)

theorem uriOf_append_singleton :
    uriOf encode (others ++ [part]) id = (uriOf encode others id).or (imageFor encode id part) := by
  simp [uriOf, List.findSome?_append]

/-- One round is right exactly where the part's text begins only at the references to it. -/
theorem resolvePart_iff (himage : part.inlineImage encode = some (cid, url))
    (hnodup : ((part :: others).filterMap contentId).Nodup) :
    resolvePart encode (resolved encode html others) part = resolved encode html (others ++ [part]) ↔
      BeginsOnlyAt (cidColon ++ cid) (· = .reference cid) (Piece.text (uriOf encode others))
        (bodyPieces html) := by
  obtain ⟨hcid, bytes, hurl⟩ := contentId_of_inlineImage himage
  have hnone : uriOf encode others cid = none := uriOf_eq_none hcid hnodup
  have hfor : ∀ id, imageFor encode id part = if cid = id then some url else none := fun id => by
    rw [imageFor, himage]
  have hsub : cidColon ++ cid = 'c' :: ("id:".toList ++ cid) := rfl
  have hnew : url = 'd' :: ("ata:".toList ++
      (part.mimetype ++ (";base64,".toList ++ encode bytes))) := hurl
  rw [resolvePart, himage]
  simp only [resolved]
  rw [hsub, hnew]
  refine replace_flatMap_iff (by decide) ?_ ?_ (bodyPieces html)
  · rintro - rfl
    simp only [Piece.text, uriOf_append_singleton, hnone, hfor, Option.none_or, if_true,
      Option.getD_some, Option.getD_none]
    exact ⟨rfl, hnew⟩
  · intro piece hne
    cases piece with
    | other c => rfl
    | reference id =>
      have hid : cid ≠ id := fun heq => hne (heq ▸ rfl)
      simp only [Piece.text, uriOf_append_singleton, hfor, if_neg hid, Option.or_none]

/-! ## 3. All rounds, in any order -/

theorem resolved_nil : resolved encode html [] = html := bodyPieces_text html

theorem resolveParts_append_singleton :
    resolveParts encode html (others ++ [part]) =
      resolvePart encode (resolveParts encode html others) part := by
  simp [resolveParts]

/-- A part that cannot be put in changes nothing. -/
theorem resolved_append_of_none (h : part.inlineImage encode = none) :
    resolved encode html (others ++ [part]) = resolved encode html others := by
  have huri : uriOf encode (others ++ [part]) = uriOf encode others := by
    funext id
    simp [uriOf_append_singleton, imageFor, h]
  rw [resolved, huri]
  rfl

theorem nodup_cons_of_append (h : ((others ++ [part]).filterMap contentId).Nodup) :
    ((part :: others).filterMap contentId).Nodup :=
  ((List.perm_append_singleton part others).filterMap contentId).nodup_iff.mp h

theorem resolveParts_eq {parts : List ParsedMail} (hapart : Apart encode html parts)
    (chosen : List ParsedMail) (hsub : chosen ⊆ parts)
    (hnodup : (chosen.filterMap contentId).Nodup) :
    resolveParts encode html chosen = resolved encode html chosen := by
  induction chosen using List.reverseRecOn with
  | nil => exact resolved_nil.symm
  | append_singleton others part ih =>
    have hcons := nodup_cons_of_append hnodup
    obtain ⟨hothers, hpart⟩ := List.append_subset.mp hsub
    rw [resolveParts_append_singleton, ih hothers (nodup_of_cons hcons)]
    cases himage : part.inlineImage encode with
    | none =>
      rw [resolved_append_of_none himage, resolvePart, himage]
    | some image =>
      refine (resolvePart_iff himage hcons).mpr (hapart others part _ _ ?_ hcons himage)
      exact List.cons_subset.mpr ⟨hpart (List.mem_singleton_self part), hothers⟩

/-- With different ids, the order of the parts is of no account. -/
theorem uriOf_perm {parts parts' : List ParsedMail} (hperm : parts.Perm parts')
    (hnodup : (parts.filterMap contentId).Nodup) : uriOf encode parts id = uriOf encode parts' id := by
  induction hperm with
  | nil => rfl
  | cons part _ ih =>
    simp only [uriOf, List.findSome?_cons] at ih ⊢
    rw [ih (nodup_of_cons hnodup)]
  | swap part part' rest =>
    by_cases hnone : imageFor encode id part = none
    · simp [uriOf, List.findSome?_cons, hnone]
    · have hcid := contentId_of_imageFor hnone
      have hnone' : imageFor encode id part' = none := by
        by_contra hne
        have hcid' := contentId_of_imageFor hne
        rw [List.filterMap_cons_some hcid', List.filterMap_cons_some hcid] at hnodup
        simp at hnodup
      simp [uriOf, List.findSome?_cons, hnone']
  | trans hfirst _ ih ih' =>
    exact (ih hnodup).trans (ih' ((hfirst.filterMap contentId).nodup_iff.mp hnodup))

/-- Every selection of the parts, in every order, is put in as the references mean it, exactly where
the parts' texts keep apart.

For the one direction, a part whose text begins where no reference to it is gets its turn last, when the
URLs of the others stand in the body. -/
theorem inline_images_iff (encode : List UInt8 → List Char) (html : List Char)
    (parts : List ParsedMail) :
    (∀ chosen, chosen ⊆ parts → (chosen.filterMap contentId).Nodup →
      resolveParts encode html chosen = resolved encode html chosen ∧
        ∀ other, other.Perm chosen →
          resolveParts encode html other = resolveParts encode html chosen) ↔
      Apart encode html parts := by
  refine ⟨fun h others part cid url hsub hnodup himage => ?_, fun hapart chosen hsub hnodup => ?_⟩
  · have hperm : (others ++ [part]).Perm (part :: others) := List.perm_append_singleton part others
    have hothers := (h others (fun p hp => hsub (List.mem_cons_of_mem part hp))
      (nodup_of_cons hnodup)).1
    have hall := (h (others ++ [part]) (fun p hp => hsub (hperm.mem_iff.mp hp))
      ((hperm.filterMap contentId).nodup_iff.mpr hnodup)).1
    rw [resolveParts_append_singleton, hothers] at hall
    exact (resolvePart_iff himage hnodup).mp hall
  · refine ⟨resolveParts_eq hapart chosen hsub hnodup, fun other hperm => ?_⟩
    have hnodup' : (other.filterMap contentId).Nodup :=
      (hperm.filterMap contentId).nodup_iff.mpr hnodup
    have huri : uriOf encode other = uriOf encode chosen := funext fun _ => uriOf_perm hperm hnodup'
    rw [resolveParts_eq hapart other (fun p hp => hsub (hperm.mem_iff.mp hp)) hnodup',
      resolveParts_eq hapart chosen hsub hnodup, resolved, resolved, huri]

/-- Two images without any bytes, and the message that has them as its parts. -/
def imageA : ParsedMail :=
  { mimetype := "image/png".toList, contentIdHeader := some "<a>".toList, bodyRaw := some [] }

def imageAb : ParsedMail :=
  { mimetype := "image/gif".toList, contentIdHeader := some "<ab>".toList, bodyRaw := some [] }

def twoImages : ParsedMail :=
  { mimetype := "multipart/related".toList, subparts := [imageA, imageAb] }

/-- The shorter id comes first, and is put in for the longer one; in the other order it is not. -/
theorem shorter_id_first :
    let html := "<img src=\"cid:ab\">".toList
    twoImages.allParts.filterMap contentId = ["a".toList, "ab".toList] ∧
      resolveCidParts (fun _ => []) html twoImages =
        "<img src=\"data:image/png;base64,b\">".toList ∧
      resolved (fun _ => []) html twoImages.allParts =
        "<img src=\"data:image/gif;base64,\">".toList ∧
      resolveParts (fun _ => []) html [imageAb, imageA] =
        "<img src=\"data:image/gif;base64,\">".toList := by
  decide

/-! ## 4. Ids without delimiters -/

/-- A text without delimiters that stands before one stands there as a whole. -/
theorem prefix_of_delimited {p y rest : List Char} (hp : ∀ c ∈ p, isIdChar c = true)
    (hrest : ∀ c, rest.head? = some c → isIdChar c = false) (h : p <+: y ++ rest) : p <+: y := by
  rcases List.prefix_or_prefix_of_prefix h (List.prefix_append y rest) with hy | ⟨u, rfl⟩
  · exact hy
  · rcases u with - | ⟨c, u⟩
    · rw [List.append_nil]
    · obtain ⟨v, hv⟩ := (List.prefix_append_right_inj y).mp h
      have hc : isIdChar c = true := hp c (by simp)
      rw [hrest c (by rw [← hv]; rfl)] at hc
      cases hc

theorem infix_iff_of_delimited {p rest : List Char} (hp : ∀ c ∈ p, isIdChar c = true) (hne : p ≠ [])
    (hrest : ∀ c, rest.head? = some c → isIdChar c = false) {w : List Char} :
    (∀ y, y ≠ [] → y <:+ w → ¬ p <+: y ++ rest) ↔ ¬ p <:+: w := by
  refine ⟨fun hnone hinfix => ?_, fun hinfix y _ hy hpre => hinfix ?_⟩
  · obtain ⟨y, hpre, hy⟩ := List.infix_iff_prefix_suffix.mp hinfix
    have hy' : y ≠ [] := by
      rintro rfl
      exact hne (List.prefix_nil.mp hpre)
    exact hnone y hy' hy (hpre.trans (List.prefix_append y _))
  · exact List.infix_iff_prefix_suffix.mpr ⟨y, prefix_of_delimited hp hrest hpre, hy⟩

section Delimited

variable {uri : List Char → Option (List Char)}

/-- After a reference the text goes on with a delimiter, if at all. -/
theorem delimiter_of_dropWhile (t : List Char) (c : Char)
    (hhead : ((bodyPieces (t.dropWhile isIdChar)).flatMap (Piece.text uri)).head? = some c) :
    isIdChar c = false := by
  rcases hdrop : t.dropWhile isIdChar with - | ⟨d, s⟩
  · rw [hdrop] at hhead
    cases hhead
  · have hd : isIdChar d = false := by
      have hnot := List.head?_dropWhile_not isIdChar t
      rw [hdrop] at hnot
      simpa using hnot
    have hpre : ¬ cidColon <+: d :: s := by
      rintro ⟨v, hv⟩
      obtain rfl : 'c' = d := (List.cons.inj hv).1
      exact absurd hd (by decide)
    rw [hdrop, bodyPieces_other hpre] at hhead
    cases hhead
    exact hd

/-- What a text with resolved references begins with, unless with a reference or a URL. -/
theorem head_of_pieces (huri : ∀ id url, uri id = some url → ∃ rest, url = 'd' :: 'a' :: rest)
    {x : Char} {u s : List Char} (htext : x :: u = (bodyPieces s).flatMap (Piece.text uri))
    (hc : x ≠ 'c') (hda : x = 'd' → u.head? ≠ some 'a') :
    ∃ s', s = x :: s' ∧ u = (bodyPieces s').flatMap (Piece.text uri) := by
  induction s using bodyPieces_induction with
  | nil => cases htext
  | reference t _ =>
    rw [bodyPieces_reference, List.flatMap_cons, Piece.text] at htext
    cases hid : uri (t.takeWhile isIdChar) with
    | none =>
      rw [hid] at htext
      exact absurd (List.cons.inj htext).1 hc
    | some url =>
      obtain ⟨rest, rfl⟩ := huri _ url hid
      rw [hid] at htext
      obtain ⟨hx, hu⟩ := List.cons.inj htext
      exact absurd (by rw [hu]; rfl) (hda hx)
  | other c s hpre _ =>
    rw [bodyPieces_other hpre, List.flatMap_cons] at htext
    obtain ⟨rfl, hu⟩ := List.cons.inj htext
    exact ⟨s, rfl, hu⟩

/-- So no reference begins anywhere but at its piece. -/
theorem not_prefix_of_other (huri : ∀ id url, uri id = some url → ∃ rest, url = 'd' :: 'a' :: rest)
    {c : Char} {s : List Char} (hpre : ¬ cidColon <+: c :: s) (cid : List Char) :
    ¬ cidColon ++ cid <+: c :: (bodyPieces s).flatMap (Piece.text uri) := by
  rintro ⟨v, hv⟩
  have hcons : 'c' :: 'i' :: 'd' :: ':' :: (cid ++ v) =
      c :: (bodyPieces s).flatMap (Piece.text uri) := by simpa [cidColon] using hv
  obtain ⟨rfl, hi⟩ := List.cons.inj hcons
  obtain ⟨s₁, rfl, hd⟩ := head_of_pieces huri hi (by decide) (fun h => absurd h (by decide))
  obtain ⟨s₂, rfl, hcolon⟩ := head_of_pieces huri hd (by decide) (fun _ => by simp)
  obtain ⟨s₃, rfl, -⟩ := head_of_pieces huri hcolon (by decide) (fun h => absurd h (by decide))
  exact hpre ⟨s₃, rfl⟩

/-- The text of a part whose id has no delimiter begins only at references to it, if no other
reference or URL contains it. -/
theorem beginsOnlyAt_iff (huri : ∀ id url, uri id = some url → ∃ rest, url = 'd' :: 'a' :: rest)
    {cid : List Char} (hsolid : ∀ c ∈ cid, isIdChar c = true) (html : List Char) :
    BeginsOnlyAt (cidColon ++ cid) (· = .reference cid) (Piece.text uri) (bodyPieces html) ↔
      ∀ id, .reference id ∈ bodyPieces html → id ≠ cid →
        ¬ cidColon ++ cid <:+: Piece.text uri (.reference id) := by
  have hcolon : ∀ c ∈ cidColon, isIdChar c = true := List.all_eq_true.mp (by decide)
  have hp : ∀ c ∈ cidColon ++ cid, isIdChar c = true := fun c hc =>
    (List.mem_append.mp hc).elim (hcolon c) (hsolid c)
  induction html using bodyPieces_induction with
  | nil => simp [bodyPieces_nil, BeginsOnlyAt]
  | reference t ih =>
    rw [bodyPieces_reference, BeginsOnlyAt,
      infix_iff_of_delimited hp (by simp [cidColon]) (delimiter_of_dropWhile t)]
    refine (and_congr Iff.rfl ih).trans ⟨fun h id hmem hid => ?_, fun hall => ⟨?_, ?_⟩⟩
    · obtain ⟨hfirst, hall⟩ := h
      rcases List.mem_cons.mp hmem with heq | hmem
      · cases heq
        exact hfirst fun heq => hid (Piece.reference.inj heq)
      · exact hall id hmem hid
    · exact fun hne => hall _ List.mem_cons_self fun heq => hne (congrArg Piece.reference heq)
    · exact fun id hmem => hall id (List.mem_cons_of_mem _ hmem)
  | other c s hpre ih =>
    rw [bodyPieces_other hpre, BeginsOnlyAt]
    have hhere : ∀ y, y ≠ [] → y <:+ Piece.text uri (.other c) →
        ¬ cidColon ++ cid <+: y ++ (bodyPieces s).flatMap (Piece.text uri) := by
      intro y hne hy
      obtain rfl : y = [c] := by
        rcases List.suffix_cons_iff.mp hy with rfl | hy
        · rfl
        · exact absurd (List.suffix_nil.mp hy) hne
      exact not_prefix_of_other huri hpre cid
    simp only [List.mem_cons, reduceCtorEq, false_or]
    exact ⟨fun h => ih.mp h.2, fun h => ⟨fun _ => hhere, ih.mpr h⟩⟩

end Delimited

/-- A `data:` URL is none of the texts that are looked for. -/
theorem uriOf_head {url : List Char} (h : uriOf encode others id = some url) :
    ∃ rest, url = 'd' :: 'a' :: rest := by
  obtain ⟨other, -, hfor⟩ := List.exists_of_findSome?_eq_some h
  obtain ⟨-, bytes, rfl⟩ := contentId_of_inlineImage (imageFor_eq_some.mp hfor)
  exact ⟨_, rfl⟩

theorem beginsOnlyAt_uriOf_iff (hsolid : ∀ c ∈ cid, isIdChar c = true) (html : List Char)
    (others : List ParsedMail) :
    BeginsOnlyAt (cidColon ++ cid) (· = .reference cid) (Piece.text (uriOf encode others))
        (bodyPieces html) ↔
      ∀ id, .reference id ∈ bodyPieces html → id ≠ cid →
        ¬ cidColon ++ cid <:+: Piece.text (uriOf encode others) (.reference id) :=
  beginsOnlyAt_iff (fun _ _ h => uriOf_head h) hsolid html

/-- Where no id has a delimiter in it: no other reference, and no URL that is put in, contains the
text of a part. -/
theorem apart_iff {parts : List ParsedMail}
    (hsolid : ∀ part ∈ parts, ∀ cid, part.contentId = some cid → ∀ c ∈ cid, isIdChar c = true) :
    Apart encode html parts ↔ ∀ part ∈ parts, ∀ cid url, part.inlineImage encode = some (cid, url) →
      ∀ id, .reference id ∈ bodyPieces html → id ≠ cid → ¬ cidColon ++ cid <:+: cidColon ++ id ∧
        ∀ other ∈ parts, ∀ url', other.inlineImage encode = some (id, url') →
          ¬ cidColon ++ cid <:+: url' := by
  refine ⟨fun hapart part hpart cid url himage id hmem hid => ⟨?_, ?_⟩, fun hall => ?_⟩
  · have hcid := (contentId_of_inlineImage himage).1
    have hbegins := hapart [] part cid url (by simpa using hpart) (by simp [hcid]) himage
    exact (beginsOnlyAt_uriOf_iff (hsolid part hpart cid hcid) html []).mp hbegins id hmem hid
  · intro other hother url' himage'
    have hcid := (contentId_of_inlineImage himage).1
    have hcid' := (contentId_of_inlineImage himage').1
    have hbegins := hapart [other] part cid url (by simp [hpart, hother])
      (by simp [hcid, hcid', Ne.symm hid]) himage
    have huri : uriOf encode [other] id = some url' := by
      simp [uriOf, imageFor_eq_some.mpr himage']
    have hnone := (beginsOnlyAt_uriOf_iff (hsolid part hpart cid hcid) html [other]).mp hbegins
      id hmem hid
    rwa [Piece.text, huri, Option.getD_some] at hnone
  · intro others part cid url hsub _ himage
    have hpart := hsub List.mem_cons_self
    have hcid := (contentId_of_inlineImage himage).1
    refine (beginsOnlyAt_uriOf_iff (hsolid part hpart cid hcid) html others).mpr
      fun id hmem hid => ?_
    obtain ⟨hother, hurl⟩ := hall part hpart cid url himage id hmem hid
    cases huri : uriOf encode others id with
    | none => rwa [Piece.text, huri, Option.getD_none]
    | some url' =>
      obtain ⟨other, hmem', hfor⟩ := List.exists_of_findSome?_eq_some huri
      rw [Piece.text, huri, Option.getD_some]
      exact hurl other (hsub (List.mem_cons_of_mem part hmem')) url' (imageFor_eq_some.mp hfor)

end Images

end Esmail
