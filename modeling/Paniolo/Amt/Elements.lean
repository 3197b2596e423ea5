import Paniolo.Amt.XmlText
import Paniolo.Library.Xml

/-!
# Finding an element

What `xml_text` finds in a document: the first element with the local name, in document order. The
scan knows nothing of nesting; it passes each tag of the document once.
-/

namespace Paniolo

namespace Amt

open Xml

/-- Text in front is passed over. -/
theorem scan_text (name : List Char) {a : List Char} (ha : '<' ∉ a) (s : List Char) :
    scan name (a ++ s) = scan name s := by
  have hnot : ∀ x ∈ a, (x == '<') = false := Text.beq_of_notMem ha
  cases hlt : Text.splitOnce (· == '<') s with
  | none =>
      have hsplit : Text.splitOnce (· == '<') (a ++ s) = none := by
        refine Text.splitOnce_none fun x hx => ?_
        rcases List.mem_append.mp hx with hx | hx
        · exact hnot x hx
        · exact Text.splitOnce_eq_none hlt x hx
      rw [scan_of_inl (r := none) (by rw [scanStep, hsplit]),
        scan_of_inl (r := none) (by rw [scanStep, hlt])]
  | some p =>
      obtain ⟨b, rest⟩ := p
      obtain ⟨d, hd, rfl, hb⟩ := Text.splitOnce_eq_some hlt
      have hsplit : Text.splitOnce (· == '<') (a ++ (b ++ d :: rest)) = some (a ++ b, rest) := by
        rw [← List.append_assoc]
        refine Text.splitOnce_append (p := (· == '<')) (fun x hx => ?_) hd rest
        rcases List.mem_append.mp hx with hx | hx
        · exact hnot x hx
        · exact hb x hx
      have hstep : scanStep name (a ++ (b ++ d :: rest)) = scanStep name (b ++ d :: rest) := by
        rw [scanStep, scanStep, hsplit, hlt]
        cases rest with
        | nil => rfl
        | cons c rest => rfl
      cases hround : scanStep name (b ++ d :: rest) with
      | inl r => rw [scan_of_inl hround, scan_of_inl (hstep.trans hround)]
      | inr s' => rw [scan_of_inr hround, scan_of_inr (hstep.trans hround)]

/-- An end tag or a declaration is passed over. -/
theorem scan_markup (name : List Char) {c : Char} (hc : c = '/' ∨ c = '?' ∨ c = '!') {a : List Char}
    (ha : '<' ∉ a) (s : List Char) : scan name ('<' :: c :: (a ++ s)) = scan name s := by
  have hlt : Text.splitOnce (· == '<') ('<' :: c :: (a ++ s)) = some ([], c :: (a ++ s)) :=
    Text.splitOnce_append (a := []) nofun rfl _
  have hc' : '<' ∉ c :: a := by
    rcases hc with rfl | rfl | rfl <;>
      exact fun h => (List.mem_cons.mp h).elim (fun h => absurd h (by decide)) ha
  rw [scan_of_inr (scanStep_markup name hlt hc), ← List.cons_append, scan_text name hc']

theorem endsNameChar_of_isSpace {c : Char} (h : isSpace c = true) : endsNameChar c = true := by
  rw [isSpace, Bool.or_eq_true, Bool.or_eq_true, Bool.or_eq_true] at h
  rw [endsNameChar]
  rcases h with ((h | h) | h) | h <;> rw [beq_iff_eq.mp h] <;> rfl

theorem localName_raw {n : QName} (h : n.WellFormed) : localName n.raw = n.loc := by
  have hcolon : ∀ x ∈ n.loc, (x == ':') = false := by
    intro x hx
    rw [beq_eq_false_iff_ne]
    rintro rfl
    exact absurd (isNameChar_of_mem h.2 hx) (by decide)
  rw [localName, QName.raw]
  cases n.pre with
  | none => rw [Text.rsplitOnce_none hcolon]
  | some p =>
      dsimp only
      rw [Text.rsplitOnce_append hcolon rfl]

section Tag

variable {t : List Piece} {tag : Tag} (ht : '<' ∉ raw t) (htag : tag.WellFormed)
  (hplain : ∀ a ∈ tag.attrs, '>' ∉ raw a.value)

include htag in
/-- The name of a tag is what is read as its name. -/
theorem name_of_tag {rest : List Char}
    (hrest : ∃ c s, rest = c :: s ∧ (c = '>' ∨ c = '/')) :
    (tag.raw ++ rest).takeWhile (fun c => !endsNameChar c) = tag.name.raw ∧
      (tag.raw ++ rest).dropWhile (fun c => !endsNameChar c) = tag.behind ++ rest := by
  have hname : ∀ c ∈ tag.name.raw, (!endsNameChar c) = true := by
    intro c hc
    rcases tag.name.mem_raw htag.name hc with rfl | hc
    · rfl
    · rw [Bool.not_eq_true', endsNameChar]
      simp only [Bool.or_eq_false_iff, beq_eq_false_iff_ne]
      exact ⟨⟨⟨⟨⟨not_of_isNameChar hc rfl, not_of_isNameChar hc rfl⟩, not_of_isNameChar hc rfl⟩,
        not_of_isNameChar hc rfl⟩, not_of_isNameChar hc rfl⟩, not_of_isNameChar hc rfl⟩
  have hend : ∃ c s, tag.behind ++ rest = c :: s ∧ endsNameChar c = true := by
    rcases Tag.behind_cases htag with hnil | ⟨c, s, hs, hc⟩
    · obtain ⟨c, s, hs, hc⟩ := hrest
      refine ⟨c, s, by rw [hnil]; exact hs, ?_⟩
      rcases hc with rfl | rfl <;> rfl
    · exact ⟨c, s ++ rest, by rw [hs]; rfl, endsNameChar_of_isSpace hc⟩
  obtain ⟨c, s, hs, hc⟩ := hend
  have hstop : ¬(!endsNameChar c) = true := by
    rw [hc]
    exact Bool.false_ne_true
  have htake : (c :: s).takeWhile (fun d => !endsNameChar d) = [] :=
    List.takeWhile_cons_of_neg hstop
  have hdrop : (c :: s).dropWhile (fun d => !endsNameChar d) = c :: s :=
    List.dropWhile_cons_of_neg hstop
  rw [Tag.raw_eq, List.append_assoc, hs, List.takeWhile_append_of_pos hname,
    List.dropWhile_append_of_pos hname, htake, hdrop, List.append_nil]
  exact ⟨rfl, rfl⟩

include ht htag in
theorem split_at_tag (rest : List Char) :
    ∃ c s, tag.raw ++ rest = c :: s ∧ ¬(c = '/' ∨ c = '?' ∨ c = '!') ∧
      Text.splitOnce (· == '<') (raw t ++ '<' :: (tag.raw ++ rest)) = some (raw t, c :: s) := by
  obtain ⟨c, s, hs, hc⟩ := tag.name.head_raw htag.name
  refine ⟨c, s ++ (tag.behind ++ rest), ?_, ?_, ?_⟩
  · rw [Tag.raw_eq, hs, List.append_assoc]
    rfl
  · rintro (rfl | rfl | rfl) <;> exact absurd hc (by decide)
  · rw [Tag.raw_eq, hs, List.append_assoc]
    exact Text.splitOnce_append (Text.beq_of_notMem ht) rfl _

include ht htag hplain

/-- At a start tag. -/
theorem scanStep_start (name after : List Char) :
    scanStep name (raw t ++ '<' :: (tag.raw ++ '>' :: after)) =
      if tag.name.loc = name then
        .inl ((Text.splitOnce (· == '<') after).map fun p => Text.trim p.1)
      else .inr after := by
  obtain ⟨c, s, hs, hc, hlt⟩ := split_at_tag ht htag ('>' :: after)
  obtain ⟨hname, hbehind⟩ := name_of_tag htag ⟨'>', after, rfl, Or.inl rfl⟩
  have hgt : Text.splitOnce (· == '>') ((c :: s).dropWhile fun d => !endsNameChar d) =
      some (tag.behind, after) := by
    rw [← hs, hbehind]
    exact Text.splitOnce_append (Text.beq_of_notMem (Tag.gt_notMem_behind htag hplain)) rfl _
  rw [scanStep_tag name hlt hc hgt, ← hs, hname, localName_raw htag.name,
    if_neg (Tag.getLast?_raw htag '<')]

/-- At an empty-element tag. -/
theorem scanStep_empty (name after : List Char) :
    scanStep name (raw t ++ '<' :: (tag.raw ++ '/' :: '>' :: after)) =
      if tag.name.loc = name then .inl (some []) else .inr after := by
  obtain ⟨c, s, hs, hc, hlt⟩ := split_at_tag ht htag ('/' :: '>' :: after)
  obtain ⟨hname, hbehind⟩ := name_of_tag htag ⟨'/', '>' :: after, rfl, Or.inr rfl⟩
  have hgt : Text.splitOnce (· == '>') ((c :: s).dropWhile fun d => !endsNameChar d) =
      some (tag.behind ++ ['/'], after) := by
    have hslash : '>' ∉ tag.behind ++ ['/'] := by
      intro hmem
      rcases List.mem_append.mp hmem with hmem | hmem
      · exact Tag.gt_notMem_behind htag hplain hmem
      · exact absurd hmem (by decide)
    have hsplit := Text.splitOnce_append (p := (· == '>')) (Text.beq_of_notMem hslash)
      (c := '>') rfl after
    rw [List.append_assoc] at hsplit
    rw [← hs, hbehind]
    exact hsplit
  have hlast : ('<' :: (tag.name.raw ++ (tag.behind ++ ['/']))).getLast? = some '/' := by
    rw [← List.append_assoc, ← List.cons_append, List.getLast?_concat]
  rw [scanStep_tag name hlt hc hgt, ← hs, hname, localName_raw htag.name, if_pos hlast]

end Tag

/-- No attribute value of the content has a closing bracket in it. -/
def Plain (c : Content) : Prop := ∀ n ∈ c.nodes, ∀ a ∈ n.tag.attrs, '>' ∉ raw a.value

/-- The first element with the local name. -/
def firstNode (c : Content) (name : List Char) : Option Element :=
  c.nodes.find? fun n => n.tag.name.loc == name

/-- The scan goes through the content and, if it does not find the element there, on behind it. -/
theorem scan_content (name : List Char) {c : Content} (h : c.WellFormed) (hplain : Plain c)
    (rest : List Char) :
    scan name (c.raw ++ rest) =
      ((firstNode c name).map fun n => Text.trim (raw n.head)).or (scan name rest) := by
  induction c generalizing rest with
  | text t => exact scan_text name (lt_notMem_raw h.legal) rest
  | empty t tag more ih =>
      obtain ⟨ht, htag, hmore⟩ := h
      have hround := scanStep_empty (lt_notMem_raw ht.legal) htag
        (hplain ⟨tag, [], true⟩ List.mem_cons_self) name (more.raw ++ rest)
      have hraw : (Content.empty t tag more).raw ++ rest =
          raw t ++ '<' :: (tag.raw ++ '/' :: '>' :: (more.raw ++ rest)) := by
        rw [Content.raw]
        simp only [List.append_assoc, List.cons_append]
      rw [hraw, firstNode, Content.nodes, List.find?_cons]
      by_cases hname : tag.name.loc = name
      · rw [if_pos hname] at hround
        rw [scan_of_inl hround, beq_iff_eq.mpr hname]
        rfl
      · rw [if_neg hname] at hround
        rw [scan_of_inr hround, beq_eq_false_iff_ne.mpr hname]
        exact ih hmore (fun n hn => hplain n (List.mem_cons_of_mem _ hn)) rest
  | element t tag inner space more ihInner ihMore =>
      obtain ⟨ht, htag, hinner, hspace, hmore⟩ := h
      have hround := scanStep_start (lt_notMem_raw ht.legal) htag
        (hplain ⟨tag, inner.head, inner.isLeaf⟩ List.mem_cons_self) name
        (inner.raw ++ '<' :: '/' :: (tag.name.raw ++ (space ++ '>' :: (more.raw ++ rest))))
      have hraw : (Content.element t tag inner space more).raw ++ rest =
          raw t ++ '<' :: (tag.raw ++ '>' :: (inner.raw ++ '<' :: '/' ::
            (tag.name.raw ++ (space ++ '>' :: (more.raw ++ rest))))) := by
        rw [Content.raw]
        simp only [List.append_assoc, List.cons_append]
      rw [hraw, firstNode, Content.nodes, List.find?_cons]
      by_cases hname : tag.name.loc = name
      · obtain ⟨after, hafter⟩ := inner.exists_raw
          ('/' :: (tag.name.raw ++ (space ++ '>' :: (more.raw ++ rest))))
        have hlt : '<' ∉ raw inner.head := lt_notMem_raw hinner.head.legal
        have hhead := Text.splitOnce_append (p := (· == '<')) (Text.beq_of_notMem hlt)
          (c := '<') rfl after
        rw [← hafter] at hhead
        rw [if_pos hname, hhead] at hround
        rw [scan_of_inl hround, beq_iff_eq.mpr hname]
        rfl
      · rw [if_neg hname] at hround
        have hend : '<' ∉ tag.name.raw ++ (space ++ ['>']) := by
          intro hmem
          rcases List.mem_append.mp hmem with hmem | hmem
          · exact tag.name.notMem_raw htag.name (by decide) (by decide) hmem
          · rcases List.mem_append.mp hmem with hmem | hmem
            · exact absurd (hspace _ hmem) (by decide)
            · exact absurd hmem (by decide)
        have hclose := scan_markup name (Or.inl rfl) hend (more.raw ++ rest)
        simp only [List.append_assoc, List.cons_append, List.nil_append] at hclose
        rw [scan_of_inr hround, beq_eq_false_iff_ne.mpr hname,
          ihInner hinner (fun n hn => hplain n (List.mem_cons_of_mem _
            (List.mem_append_left _ hn))), hclose,
          ihMore hmore (fun n hn => hplain n (List.mem_cons_of_mem _ (List.mem_append_right _ hn)))]
        rw [List.find?_append, Option.map_or, Option.or_assoc]
        rfl

/-- What `xml_text` returns for a document. -/
theorem xmlText_document (d : Document) (hplain : Plain d.content) (name : List Char) :
    xmlText d.raw name =
      some ((firstNode d.content name).map fun n => Text.trim (raw n.head)) := by
  have hnil : scan name [] = none := scan_of_inl rfl
  have hcontent := scan_content name d.wellFormed hplain []
  rw [List.append_nil, hnil, Option.or_none] at hcontent
  rw [xmlText_eq, ← hcontent, Document.raw]
  cases hdecl : d.declaration with
  | none => rfl
  | some s =>
      have hlt : '<' ∉ ['x', 'm', 'l'] ++ (s ++ ['?', '>']) := by
        intro hmem
        rcases List.mem_append.mp hmem with hmem | hmem
        · exact absurd hmem (by decide)
        · rcases List.mem_append.mp hmem with hmem | hmem
          · exact d.declared s hdecl hmem
          · exact absurd hmem (by decide)
      exact congrArg some (scan_markup name (Or.inr (Or.inl rfl)) hlt d.content.raw)

end Amt

end Paniolo
