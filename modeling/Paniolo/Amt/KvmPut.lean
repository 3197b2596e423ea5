import Paniolo.Amt.Elements
import Paniolo.Library.Slice

/-!
# Putting the KVM settings

`kvm_put_body` of `amt/src/rpc.rs`: the settings of a Get response, with the managed ones replaced,
in the order that a Put is validated against. The body is right for every response and every
password of characters that XML has; no other character can be written in XML at all, and
`xml_escape` passes it on.
-/

namespace Paniolo

namespace Amt

open Xml

def IPS : String := "http://intel.com/wbem/wscim/1/ips-schema/1/"

def KVM_PUT_ORDER : List String :=
  ["ElementName", "InstanceID", "EnabledByMEBx", "BackToBackFbMode", "Is5900PortEnabled",
    "OptInPolicy", "OptInPolicyTimeout", "SessionTimeout", "RFBPassword", "DefaultScreen"]

def xmlEscape (value : List Char) : List Char :=
  value.flatMap fun c =>
    if c = '&' then "&amp;".toList
    else if c = '<' then "&lt;".toList
    else if c = '>' then "&gt;".toList
    else [c]

section Body

variable (current : List Char) (rfbPassword : Option (List Char)) (port5900 optIn : Bool)
  (sessionTimeout : UInt16)

/-- The text of a field, ready for XML. -/
def encoded (name : String) : Option (Option (List Char)) :=
  if name = "Is5900PortEnabled" then some (some (toString port5900).toList)
  else if name = "OptInPolicy" then some (some (toString optIn).toList)
  else if name = "SessionTimeout" then some (some (toString sessionTimeout.toNat).toList)
  else if name = "RFBPassword" then some (rfbPassword.map xmlEscape)
  else xmlText current name.toList

def fieldElement (name : String) (v : List Char) : List Char :=
  "<h:".toList ++ name.toList ++ ">".toList ++ v ++ "</h:".toList ++ name.toList ++ ">".toList

/-- The body of a Put; none where reading the response panics. -/
def kvmPutBody : Option (List Char) := do
  let uri := IPS ++ "IPS_KVMRedirectionSettingData"
  let elements ← KVM_PUT_ORDER.mapM fun name => do
    let v ← encoded current rfbPassword port5900 optIn sessionTimeout name
    pure (v.elim [] (fieldElement name))
  pure ("<h:IPS_KVMRedirectionSettingData xmlns:h=\"".toList ++ uri.toList ++ "\">".toList ++
    elements.flatten ++ "</h:IPS_KVMRedirectionSettingData>".toList)

end Body

/-! ### What the body is to be -/

/-- A Get response: each field occurs at most once and has no children. -/
structure Response where
  doc : Document
  plain : Plain doc.content
  once : ∀ name ∈ KVM_PUT_ORDER,
    (doc.content.nodes.filter fun n => n.tag.name.loc == name.toList).length ≤ 1
  leaf : ∀ n ∈ doc.content.nodes, (∃ name ∈ KVM_PUT_ORDER, n.tag.name.loc = name.toList) →
    n.leaf = true

/-- The fields that are not echoed. -/
def managed : List String := ["Is5900PortEnabled", "OptInPolicy", "SessionTimeout", "RFBPassword"]

def fieldTag (name : String) : Tag := ⟨⟨some ['h'], name.toList⟩, [], []⟩

def children : List (String × List Piece) → Content
  | [] => .text []
  | f :: fields => .element [] (fieldTag f.1) (.text f.2) [] (children fields)

def settingsTag : Tag :=
  ⟨⟨some ['h'], "IPS_KVMRedirectionSettingData".toList⟩,
    [⟨[' '], ⟨some "xmlns".toList, ['h']⟩, [], [], '"',
      (IPS ++ "IPS_KVMRedirectionSettingData").toList.map .char⟩], []⟩

/-- The settings element with these fields as its children. -/
def settings (fields : List (String × List Piece)) : Content :=
  .element [] settingsTag (children fields) [] (.text [])

/-- The body is a well-formed element with these fields: in order, the unmanaged ones as they were
in the response, and the managed ones with their new values. -/
structure Correct (r : Response) (rfbPassword : Option (List Char)) (port5900 optIn : Bool)
    (sessionTimeout : UInt16) (fields : List (String × List Piece)) : Prop where
  body : kvmPutBody r.doc.raw rfbPassword port5900 optIn sessionTimeout =
    some (settings fields).raw
  wellFormed : (settings fields).WellFormed
  ordered : (fields.map Prod.fst).Sublist KVM_PUT_ORDER
  echoed : ∀ name ∈ KVM_PUT_ORDER, name ∉ managed → ∀ v,
    (∃ t, (name, t) ∈ fields ∧ raw t = v) ↔
      ∃ n ∈ r.doc.content.nodes, n.tag.name.loc = name.toList ∧ Text.trim (raw n.head) = v
  port : ∃ t, ("Is5900PortEnabled", t) ∈ fields ∧ raw t = (toString port5900).toList
  consent : ∃ t, ("OptInPolicy", t) ∈ fields ∧ raw t = (toString optIn).toList
  timeout : ∃ t, ("SessionTimeout", t) ∈ fields ∧ raw t = (toString sessionTimeout.toNat).toList
  password : ∀ v, (∃ t, ("RFBPassword", t) ∈ fields ∧ unescaped t = v) ↔ v ∈ rfbPassword

/-! ### Trimming character data -/

def isBlank : Piece → Bool
  | .char c => Text.isWhitespace c
  | _ => false

def trimmed (t : List Piece) : List Piece := (t.dropWhile isBlank).rdropWhile isBlank

/-- A piece of several characters has no white space at its ends. -/
theorem not_isBlank {p : Piece} {s : List Char} (h : p.raw = '&' :: (s ++ [';'])) :
    isBlank p = false := by
  cases p with
  | char c => cases s <;> cases h
  | entity e => rfl
  | decimal digits c => rfl
  | hex digits c => rfl

theorem raw_dropWhile {t : List Piece} (h : ∀ p ∈ t, p.Legal) :
    raw (t.dropWhile isBlank) = (raw t).dropWhile Text.isWhitespace := by
  induction t with
  | nil => rfl
  | cons p t ih =>
      have hraw : raw (p :: t) = p.raw ++ raw t := List.flatMap_cons
      rcases Piece.raw_cases (h p List.mem_cons_self) with ⟨c, rfl⟩ | ⟨s, hs, -⟩
      · have hone : raw (.char c :: t) = c :: raw t := hraw
        by_cases hc : Text.isWhitespace c = true
        · have hdrop : (Piece.char c :: t).dropWhile isBlank = t.dropWhile isBlank :=
            List.dropWhile_cons_of_pos hc
          rw [hone, hdrop, List.dropWhile_cons_of_pos hc]
          exact ih fun q hq => h q (List.mem_cons_of_mem _ hq)
        · have hdrop : (Piece.char c :: t).dropWhile isBlank = .char c :: t :=
            List.dropWhile_cons_of_neg hc
          rw [hdrop, hone, List.dropWhile_cons_of_neg hc]
      · have hblank : ¬isBlank p = true := by
          rw [not_isBlank hs]
          exact Bool.false_ne_true
        rw [List.dropWhile_cons_of_neg hblank, hraw, hs, List.cons_append,
          List.dropWhile_cons_of_neg (by decide)]

theorem raw_rdropWhile {t : List Piece} (h : ∀ p ∈ t, p.Legal) :
    raw (t.rdropWhile isBlank) = (raw t).rdropWhile Text.isWhitespace := by
  induction t using List.reverseRecOn with
  | nil => rfl
  | append_singleton t p ih =>
      have hraw : raw (t ++ [p]) = raw t ++ p.raw := by
        rw [raw, List.flatMap_append, List.flatMap_singleton]
        rfl
      rcases Piece.raw_cases (h p (List.mem_append_right _ List.mem_cons_self)) with
        ⟨c, rfl⟩ | ⟨s, hs, -⟩
      · have hone : raw (t ++ [.char c]) = raw t ++ [c] := hraw
        by_cases hc : Text.isWhitespace c = true
        · rw [hone, List.rdropWhile_concat_pos _ _ _ hc,
            List.rdropWhile_concat_pos isBlank t (.char c) hc]
          exact ih fun q hq => h q (List.mem_append_left _ hq)
        · rw [hone, List.rdropWhile_concat_neg _ _ _ hc,
            List.rdropWhile_concat_neg isBlank t (.char c) hc, hone]
      · have hblank : ¬isBlank p = true := by
          rw [not_isBlank hs]
          exact Bool.false_ne_true
        rw [List.rdropWhile_concat_neg _ _ _ hblank, hraw, hs, ← List.cons_append,
          ← List.append_assoc, List.rdropWhile_concat_neg _ _ _ (by decide)]

theorem raw_trimmed {t : List Piece} (h : ∀ p ∈ t, p.Legal) :
    raw (trimmed t) = Text.trim (raw t) := by
  have hrest : ∀ p ∈ t.dropWhile isBlank, p.Legal := fun p hp =>
    h p ((List.dropWhile_suffix _).subset hp)
  rw [trimmed, raw_rdropWhile hrest, raw_dropWhile h, Text.trim, Text.trimStart]

/-- Text without the white space around it is text. -/
theorem isText_trimmed {t : List Piece} (h : IsText t) : IsText (trimmed t) where
  legal p hp := h.legal p
    ((List.dropWhile_suffix _).subset ((List.rdropWhile_prefix _ _).subset hp))
  noEnd hcut := by
    rw [raw_trimmed h.legal, Text.trim, Text.trimStart] at hcut
    exact h.noEnd (hcut.trans ((List.rdropWhile_prefix _ _).isInfix.trans
      (List.dropWhile_suffix _).isInfix))

/-! ### Escaping -/

def escaped (value : List Char) : List Piece :=
  value.map fun c =>
    if c = '&' then .entity .amp
    else if c = '<' then .entity .lt
    else if c = '>' then .entity .gt
    else .char c

theorem raw_escaped (value : List Char) : raw (escaped value) = xmlEscape value := by
  rw [raw, escaped, xmlEscape, List.flatMap_map]
  refine congrArg (value.flatMap ·) (funext fun c => ?_)
  split_ifs <;> rfl

theorem unescaped_escaped (value : List Char) : unescaped (escaped value) = value := by
  have hvalue : ∀ c : Char, Piece.value (if c = '&' then .entity .amp
      else if c = '<' then .entity .lt else if c = '>' then .entity .gt else .char c) = c := by
    intro c
    split_ifs with hamp hlt hgt
    · exact hamp.symm
    · exact hlt.symm
    · exact hgt.symm
    · rfl
  rw [unescaped, escaped, List.map_map]
  exact (List.map_congr_left fun c _ => hvalue c).trans (List.map_id value)

theorem gt_notMem_xmlEscape (value : List Char) : '>' ∉ xmlEscape value := by
  intro hmem
  obtain ⟨c, -, hc⟩ := List.mem_flatMap.mp hmem
  split_ifs at hc with hamp hlt hgt
  · exact absurd hc (by decide)
  · exact absurd hc (by decide)
  · exact absurd hc (by decide)
  · exact hgt (List.mem_singleton.mp hc).symm

/-- What is escaped is text where all of its characters may stand in XML. -/
theorem isText_escaped {value : List Char} (h : ∀ c ∈ value, isChar c = true) :
    IsText (escaped value) where
  legal p hp := by
    obtain ⟨c, hc, rfl⟩ := List.mem_map.mp hp
    split_ifs with hamp hlt hgt
    · trivial
    · trivial
    · trivial
    · exact ⟨h c hc, hlt, hamp⟩
  noEnd hcut := by
    rw [raw_escaped] at hcut
    exact gt_notMem_xmlEscape value (hcut.subset (by decide))

/-! ### The body -/

/-- A character that is written as it is. -/
def isPlain (c : Char) : Bool := isChar c && c != '<' && c != '&' && c != '>'

theorem isText_chars {s : List Char} (h : s.all isPlain = true) :
    IsText (s.map .char) ∧ raw (s.map .char) = s := by
  have hplain : ∀ c ∈ s, ((isChar c = true ∧ c ≠ '<') ∧ c ≠ '&') ∧ c ≠ '>' := by
    intro c hc
    have hc' := List.all_eq_true.mp h c hc
    rwa [isPlain, Bool.and_eq_true, Bool.and_eq_true, Bool.and_eq_true, bne_iff_ne, bne_iff_ne,
      bne_iff_ne] at hc'
  have hraw : raw (s.map .char) = s := by
    rw [raw, List.flatMap_map]
    exact List.flatMap_singleton' s
  refine ⟨⟨fun p hp => ?_, fun hcut => ?_⟩, hraw⟩
  · obtain ⟨c, hc, rfl⟩ := List.mem_map.mp hp
    obtain ⟨⟨⟨hchar, hlt⟩, hamp⟩, -⟩ := hplain c hc
    exact ⟨hchar, hlt, hamp⟩
  · rw [hraw] at hcut
    exact (hplain '>' (hcut.subset (by decide))).2 rfl

theorem isPlain_of_isDigit {c : Char} (h : c.isDigit = true) : isPlain c = true := by
  have hne : ∀ d : Char, d.isDigit = false → c ≠ d := by
    rintro d hd rfl
    rw [h] at hd
    cases hd
  rw [isPlain, isChar_of_isDigit h, bne_iff_ne.mpr (hne '<' (by decide)),
    bne_iff_ne.mpr (hne '&' (by decide)), bne_iff_ne.mpr (hne '>' (by decide))]
  rfl

theorem isText_bool (b : Bool) :
    IsText ((toString b).toList.map .char) ∧ raw ((toString b).toList.map .char) =
      (toString b).toList := by
  cases b
  · exact isText_chars (by rfl)
  · exact isText_chars (by rfl)

theorem isText_nat (n : Nat) :
    IsText ((toString n).toList.map .char) ∧ raw ((toString n).toList.map .char) =
      (toString n).toList := by
  refine isText_chars (List.all_eq_true.mpr fun c hc => isPlain_of_isDigit ?_)
  rw [Nat.toString_eq_ofList_toDigits, String.toList_ofList] at hc
  exact Nat.isDigit_of_mem_toDigits (by decide) (by decide) hc

theorem isText_nil : IsText [] := ⟨nofun, by decide⟩

/-- The text of every element of well-formed content. -/
theorem isText_of_mem {c : Content} (h : c.WellFormed) {n : Element} (hn : n ∈ c.nodes) :
    IsText n.head := by
  induction c with
  | text t => cases hn
  | empty t tag more ih =>
      rcases List.mem_cons.mp hn with rfl | hn
      · exact isText_nil
      · exact ih h.2.2 hn
  | element t tag inner space more ihInner ihMore =>
      rcases List.mem_cons.mp hn with rfl | hn
      · exact h.2.2.1.head
      · rcases List.mem_append.mp hn with hn | hn
        · exact ihInner h.2.2.1 hn
        · exact ihMore h.2.2.2.2 hn

section Fields

variable (r : Response) (rfbPassword : Option (List Char)) (port5900 optIn : Bool)
  (sessionTimeout : UInt16)

/-- The text of a field of the body. -/
def fieldText (name : String) : Option (List Piece) :=
  if name = "Is5900PortEnabled" then some ((toString port5900).toList.map .char)
  else if name = "OptInPolicy" then some ((toString optIn).toList.map .char)
  else if name = "SessionTimeout" then some ((toString sessionTimeout.toNat).toList.map .char)
  else if name = "RFBPassword" then rfbPassword.map escaped
  else (firstNode r.doc.content name.toList).map fun n => trimmed n.head

/-- The fields of the body among `names`. -/
def fieldsAmong (names : List String) : List (String × List Piece) :=
  names.filterMap fun name =>
    (fieldText r rfbPassword port5900 optIn sessionTimeout name).map fun t => (name, t)

theorem encoded_eq (name : String) :
    encoded r.doc.raw rfbPassword port5900 optIn sessionTimeout name =
      some ((fieldText r rfbPassword port5900 optIn sessionTimeout name).map raw) := by
  rw [encoded, fieldText]
  split_ifs with hport hconsent htimeout hpassword
  · rw [Option.map_some, (isText_bool port5900).2]
  · rw [Option.map_some, (isText_bool optIn).2]
  · rw [Option.map_some, (isText_nat sessionTimeout.toNat).2]
  · cases rfbPassword with
    | none => rfl
    | some p => exact congrArg (fun v => some (some v)) (raw_escaped p).symm
  · rw [xmlText_document r.doc r.plain]
    cases hfirst : firstNode r.doc.content name.toList with
    | none => rfl
    | some n =>
        have hlegal := (isText_of_mem r.doc.wellFormed (List.mem_of_find?_eq_some hfirst)).legal
        exact congrArg (fun v => some (some v)) (raw_trimmed hlegal).symm

theorem mem_fieldsAmong {names : List String} {name : String} {t : List Piece} :
    (name, t) ∈ fieldsAmong r rfbPassword port5900 optIn sessionTimeout names ↔
      name ∈ names ∧ fieldText r rfbPassword port5900 optIn sessionTimeout name = some t := by
  rw [fieldsAmong, List.mem_filterMap]
  constructor
  · rintro ⟨a, ha, hat⟩
    obtain ⟨u, hu, heq⟩ := Option.map_eq_some_iff.mp hat
    cases heq
    exact ⟨ha, hu⟩
  · rintro ⟨hname, ht⟩
    exact ⟨name, hname, by rw [ht]; rfl⟩

theorem sublist_fieldsAmong (names : List String) :
    ((fieldsAmong r rfbPassword port5900 optIn sessionTimeout names).map Prod.fst).Sublist
      names := by
  induction names with
  | nil => exact List.Sublist.slnil
  | cons name names ih =>
      rw [fieldsAmong, List.filterMap_cons]
      cases fieldText r rfbPassword port5900 optIn sessionTimeout name with
      | none => exact ih.cons name
      | some t => exact ih.cons_cons name

theorem fieldElement_eq (name : String) (v : List Char) :
    fieldElement name v = '<' :: 'h' :: ':' :: (name.toList ++ '>' :: (v ++
      '<' :: '/' :: 'h' :: ':' :: (name.toList ++ ['>']))) := by
  have hraw : fieldElement name v =
      "<h:".toList ++ name.toList ++ ">".toList ++ v ++ "</h:".toList ++ name.toList ++ ">".toList :=
    rfl
  rw [hraw]
  simp only [List.append_assoc]
  rfl

theorem raw_cons (name : String) (t : List Piece) (fields : List (String × List Piece)) :
    (children ((name, t) :: fields)).raw = fieldElement name (raw t) ++ (children fields).raw := by
  have hraw : (children ((name, t) :: fields)).raw =
      '<' :: ((fieldTag name).raw ++ '>' :: (raw t ++ '<' :: '/' ::
        ((fieldTag name).name.raw ++ '>' :: (children fields).raw))) := rfl
  have htag : (fieldTag name).raw = 'h' :: ':' :: name.toList := List.append_nil _
  have hname : (fieldTag name).name.raw = 'h' :: ':' :: name.toList := rfl
  rw [hraw, htag, hname, fieldElement_eq]
  simp only [List.append_assoc, List.cons_append, List.nil_append]

theorem raw_children (names : List String) :
    (children (fieldsAmong r rfbPassword port5900 optIn sessionTimeout names)).raw =
      (names.map fun name =>
        ((fieldText r rfbPassword port5900 optIn sessionTimeout name).map raw).elim []
          (fieldElement name)).flatten := by
  induction names with
  | nil => rfl
  | cons name names ih =>
      rw [List.map_cons, List.flatten_cons, ← ih, fieldsAmong, List.filterMap_cons]
      cases fieldText r rfbPassword port5900 optIn sessionTimeout name with
      | none => rfl
      | some t => exact raw_cons name t _

theorem wellFormed_children {fields : List (String × List Piece)}
    (hnames : ∀ f ∈ fields, isName f.1.toList = true) (htexts : ∀ f ∈ fields, IsText f.2) :
    (children fields).WellFormed := by
  induction fields with
  | nil => exact isText_nil
  | cons f fields ih =>
      refine ⟨isText_nil, ?_, htexts f List.mem_cons_self, nofun,
        ih (fun g hg => hnames g (List.mem_cons_of_mem f hg))
          fun g hg => htexts g (List.mem_cons_of_mem f hg)⟩
      exact ⟨⟨by rintro p ⟨⟩; rfl, hnames f List.mem_cons_self⟩, nofun, List.nodup_nil, nofun⟩

/-- The texts of well-formed children. -/
theorem isText_of_children {fields : List (String × List Piece)} (h : (children fields).WellFormed)
    {f : String × List Piece} (hf : f ∈ fields) : IsText f.2 := by
  induction fields with
  | nil => cases hf
  | cons g fields ih =>
      rcases List.mem_cons.mp hf with rfl | hf
      · exact h.2.2.1
      · exact ih h.2.2.2.2 hf

theorem wellFormed_settingsTag : settingsTag.WellFormed where
  name := by decide
  attrs a ha := by
    rw [List.mem_singleton.mp ha]
    have huri := isText_chars (s := (IPS ++ "IPS_KVMRedirectionSettingData").toList) (by rfl)
    have hquote : (IPS ++ "IPS_KVMRedirectionSettingData").toList.all (· != '"') = true := by rfl
    have hspace : ∀ c ∈ [' '], isSpace c = true := fun c hc => by
      rw [List.mem_singleton.mp hc]
      rfl
    refine ⟨List.cons_ne_nil _ _, hspace, by decide, nofun, nofun, Or.inl rfl, huri.1.legal, ?_⟩
    rw [huri.2]
    exact fun hmem => bne_iff_ne.mp (List.all_eq_true.mp hquote '"' hmem) rfl
  nodup := List.pairwise_singleton _ _
  space := nofun

theorem raw_settings (fields : List (String × List Piece)) :
    (settings fields).raw = "<h:IPS_KVMRedirectionSettingData xmlns:h=\"".toList ++
      (IPS ++ "IPS_KVMRedirectionSettingData").toList ++ "\">".toList ++ (children fields).raw ++
        "</h:IPS_KVMRedirectionSettingData>".toList := by
  have hraw : (settings fields).raw = '<' :: (settingsTag.raw ++ '>' :: ((children fields).raw ++
      "</h:IPS_KVMRedirectionSettingData>".toList)) := rfl
  have htag : settingsTag.raw = "h:IPS_KVMRedirectionSettingData xmlns:h=\"".toList ++
      (IPS ++ "IPS_KVMRedirectionSettingData").toList ++ "\"".toList := by decide
  rw [hraw, htag]
  simp only [List.append_assoc]
  rfl

theorem kvmPutBody_eq :
    kvmPutBody r.doc.raw rfbPassword port5900 optIn sessionTimeout =
      some (settings (fieldsAmong r rfbPassword port5900 optIn sessionTimeout KVM_PUT_ORDER)).raw := by
  have hmap : KVM_PUT_ORDER.mapM (fun name => do
      let v ← encoded r.doc.raw rfbPassword port5900 optIn sessionTimeout name
      pure (v.elim [] (fieldElement name))) = some (KVM_PUT_ORDER.map fun name =>
        ((fieldText r rfbPassword port5900 optIn sessionTimeout name).map raw).elim []
          (fieldElement name)) := by
    refine mapM_eq_some_map fun name _ => ?_
    rw [encoded_eq]
    rfl
  rw [kvmPutBody, hmap, raw_settings, raw_children]
  rfl

theorem loc_of_firstNode {c : Content} {name : List Char} {n : Element}
    (h : firstNode c name = some n) : n.tag.name.loc = name := by
  have hloc := List.find?_some (p := fun n : Element => n.tag.name.loc == name) h
  exact beq_iff_eq.mp hloc

/-- The first element with a name that occurs once is every element with that name. -/
theorem firstNode_eq_some {name : String} (hname : name ∈ KVM_PUT_ORDER) {n : Element} :
    firstNode r.doc.content name.toList = some n ↔
      n ∈ r.doc.content.nodes ∧ n.tag.name.loc = name.toList := by
  constructor
  · intro h
    exact ⟨List.mem_of_find?_eq_some h, loc_of_firstNode h⟩
  · rintro ⟨hn, hloc⟩
    have hmem : ∀ m ∈ r.doc.content.nodes, m.tag.name.loc = name.toList →
        m ∈ r.doc.content.nodes.filter fun n => n.tag.name.loc == name.toList :=
      fun m hm hl => List.mem_filter.mpr ⟨hm, beq_iff_eq.mpr hl⟩
    cases hfirst : firstNode r.doc.content name.toList with
    | none => exact absurd (beq_iff_eq.mpr hloc) (List.find?_eq_none.mp hfirst n hn)
    | some m =>
        have hm := hmem m (List.mem_of_find?_eq_some hfirst) (loc_of_firstNode hfirst)
        obtain ⟨a, ha⟩ := List.length_eq_one_iff.mp
          (Nat.le_antisymm (r.once name hname) (List.length_pos_of_mem hm))
        have hn' := hmem n hn hloc
        rw [ha, List.mem_singleton] at hm hn'
        rw [hm, hn']

theorem isText_fieldText (hpassword : ∀ p ∈ rfbPassword, ∀ c ∈ p, isChar c = true) {name : String}
    {t : List Piece} (h : fieldText r rfbPassword port5900 optIn sessionTimeout name = some t) :
    IsText t := by
  rw [fieldText] at h
  split_ifs at h
  · cases h
    exact (isText_bool port5900).1
  · cases h
    exact (isText_bool optIn).1
  · cases h
    exact (isText_nat sessionTimeout.toNat).1
  · obtain ⟨p, hp, rfl⟩ := Option.map_eq_some_iff.mp h
    exact isText_escaped (hpassword p hp)
  · obtain ⟨n, hn, rfl⟩ := Option.map_eq_some_iff.mp h
    exact isText_trimmed (isText_of_mem r.doc.wellFormed (List.mem_of_find?_eq_some hn))

/-- A password of characters that XML has is written correctly, and all else with it. -/
theorem correct_fieldsAmong (hpassword : ∀ p ∈ rfbPassword, ∀ c ∈ p, isChar c = true) :
    Correct r rfbPassword port5900 optIn sessionTimeout
      (fieldsAmong r rfbPassword port5900 optIn sessionTimeout KVM_PUT_ORDER) where
  body := kvmPutBody_eq r rfbPassword port5900 optIn sessionTimeout
  wellFormed := by
    have hnames : ∀ name ∈ KVM_PUT_ORDER, isName name.toList = true := by decide
    refine ⟨isText_nil, wellFormed_settingsTag, wellFormed_children ?_ ?_, nofun, isText_nil⟩
    · rintro ⟨name, t⟩ hf
      exact hnames name ((mem_fieldsAmong ..).mp hf).1
    · rintro ⟨name, t⟩ hf
      exact isText_fieldText r _ _ _ _ hpassword ((mem_fieldsAmong ..).mp hf).2
  ordered := sublist_fieldsAmong ..
  echoed name hname hmanaged v := by
    have htext : fieldText r rfbPassword port5900 optIn sessionTimeout name =
        (firstNode r.doc.content name.toList).map fun n => trimmed n.head := by
      simp only [managed, List.mem_cons, List.not_mem_nil, or_false, not_or] at hmanaged
      rw [fieldText, if_neg hmanaged.1, if_neg hmanaged.2.1, if_neg hmanaged.2.2.1,
        if_neg hmanaged.2.2.2]
    constructor
    · rintro ⟨t, ht, rfl⟩
      obtain ⟨n, hn, rfl⟩ := Option.map_eq_some_iff.mp
        (htext.symm.trans ((mem_fieldsAmong ..).mp ht).2)
      obtain ⟨hmem, hloc⟩ := (firstNode_eq_some r hname).mp hn
      exact ⟨n, hmem, hloc, (raw_trimmed (isText_of_mem r.doc.wellFormed hmem).legal).symm⟩
    · rintro ⟨n, hmem, hloc, rfl⟩
      refine ⟨trimmed n.head, (mem_fieldsAmong ..).mpr ⟨hname, ?_⟩,
        raw_trimmed (isText_of_mem r.doc.wellFormed hmem).legal⟩
      rw [htext, (firstNode_eq_some r hname).mpr ⟨hmem, hloc⟩]
      rfl
  port := ⟨_, (mem_fieldsAmong ..).mpr ⟨by decide, rfl⟩, (isText_bool port5900).2⟩
  consent := ⟨_, (mem_fieldsAmong ..).mpr ⟨by decide, rfl⟩, (isText_bool optIn).2⟩
  timeout := ⟨_, (mem_fieldsAmong ..).mpr ⟨by decide, rfl⟩, (isText_nat sessionTimeout.toNat).2⟩
  password v := by
    have htext : fieldText r rfbPassword port5900 optIn sessionTimeout "RFBPassword" =
        rfbPassword.map escaped := rfl
    constructor
    · rintro ⟨t, ht, rfl⟩
      obtain ⟨p, hp, rfl⟩ := Option.map_eq_some_iff.mp
        (htext.symm.trans ((mem_fieldsAmong ..).mp ht).2)
      rw [unescaped_escaped]
      exact hp
    · intro hv
      refine ⟨escaped v, (mem_fieldsAmong ..).mpr ⟨by decide, ?_⟩, unescaped_escaped v⟩
      rw [htext, hv]
      rfl

end Fields

section Correct

variable {r : Response} {rfbPassword : Option (List Char)} {port5900 optIn : Bool}
  {sessionTimeout : UInt16}

/-- What escaping leaves alone stands in the body as it is. -/
theorem mem_body {body : List Char}
    (h : kvmPutBody r.doc.raw rfbPassword port5900 optIn sessionTimeout = some body)
    {p : List Char} (hp : p ∈ rfbPassword) {c : Char} (hc : c ∈ xmlEscape p) : c ∈ body := by
  have hbody := (kvmPutBody_eq r rfbPassword port5900 optIn sessionTimeout).symm.trans h
  have htext : fieldText r rfbPassword port5900 optIn sessionTimeout "RFBPassword" =
      rfbPassword.map escaped := rfl
  have helement : c ∈ ((fieldText r rfbPassword port5900 optIn sessionTimeout
      "RFBPassword").map raw).elim [] (fieldElement "RFBPassword") := by
    rw [htext, hp, Option.map_some, Option.map_some, raw_escaped, Option.elim_some, fieldElement_eq]
    simp only [List.mem_append, List.mem_cons]
    exact Or.inr (Or.inr (Or.inr (Or.inr (Or.inr (Or.inl hc)))))
  rw [← Option.some.inj hbody, raw_settings, raw_children]
  refine List.mem_append_left _ (List.mem_append_right _ (List.mem_flatten.mpr ⟨_, ?_, helement⟩))
  exact List.mem_map_of_mem (by decide)

/-- However the body is read as XML, all characters of the password are those of XML. -/
theorem isChar_of_wellFormed {e : Content} (he : e.WellFormed)
    (h : kvmPutBody r.doc.raw rfbPassword port5900 optIn sessionTimeout = some e.raw)
    {p : List Char} (hp : p ∈ rfbPassword) {c : Char} (hc : c ∈ p) : isChar c = true := by
  by_contra hchar
  rw [Bool.not_eq_true] at hchar
  have hescape : c ∈ xmlEscape p := by
    refine List.mem_flatMap.mpr ⟨c, hc, ?_⟩
    rw [if_neg (ne_of_isChar hchar (by decide)), if_neg (ne_of_isChar hchar (by decide)),
      if_neg (ne_of_isChar hchar (by decide))]
    exact List.mem_cons_self
  exact Content.notMem_raw hchar he (mem_body h hp hescape)

end Correct

/-- The body is correct exactly where the password has only characters that XML has, and elsewhere
it is no XML at all; `xml_text` reads every string without a panic. -/
theorem put_correct_iff (r : Response) (rfbPassword : Option (List Char)) (port5900 optIn : Bool)
    (sessionTimeout : UInt16) :
    (∀ xml name, ∃ t, xmlText xml name = some t) ∧
      ((∃ fields, Correct r rfbPassword port5900 optIn sessionTimeout fields) ↔
        ∀ p ∈ rfbPassword, ∀ c ∈ p, isChar c = true) ∧
      ((∃ e : Content, e.WellFormed ∧
          kvmPutBody r.doc.raw rfbPassword port5900 optIn sessionTimeout = some e.raw) ↔
        ∀ p ∈ rfbPassword, ∀ c ∈ p, isChar c = true) := by
  have hchars : (∃ e : Content, e.WellFormed ∧
      kvmPutBody r.doc.raw rfbPassword port5900 optIn sessionTimeout = some e.raw) →
        ∀ p ∈ rfbPassword, ∀ c ∈ p, isChar c = true := by
    rintro ⟨e, he, hbody⟩ p hp c hc
    exact isChar_of_wellFormed he hbody hp hc
  refine ⟨fun xml name => ⟨_, xmlText_eq xml name⟩, ⟨?_, fun hpassword => ?_⟩, hchars,
    fun hpassword => ?_⟩
  · rintro ⟨fields, hfields⟩
    exact hchars ⟨_, hfields.wellFormed, hfields.body⟩
  · exact ⟨_, correct_fieldsAmong r rfbPassword port5900 optIn sessionTimeout hpassword⟩
  · have hcorrect := correct_fieldsAmong r rfbPassword port5900 optIn sessionTimeout hpassword
    exact ⟨_, hcorrect.wellFormed, hcorrect.body⟩

/-- A response with one field. -/
def oneField : Response where
  doc :=
    { declaration := none
      content := .element [] ⟨⟨some ['g'], "IPS_KVMRedirectionSettingData".toList⟩, [], []⟩
        (.element [] ⟨⟨some ['g'], "ElementName".toList⟩, [], []⟩ (.text [.char 'n']) []
          (.text [])) [] (.text [])
      declared := nofun
      root := ⟨nofun, nofun⟩
      wellFormed :=
        ⟨isText_nil, ⟨⟨by rintro p ⟨⟩; rfl, by decide⟩, nofun, List.nodup_nil, nofun⟩,
          ⟨isText_nil, ⟨⟨by rintro p ⟨⟩; rfl, by decide⟩, nofun, List.nodup_nil, nofun⟩,
            (isText_chars (s := ['n']) (by rfl)).1, nofun, isText_nil⟩,
          nofun, isText_nil⟩ }
  plain n hn a ha := by
    have hattrs : n.tag.attrs = [] := by
      rcases List.mem_cons.mp hn with rfl | hn
      · rfl
      · rw [List.mem_singleton.mp hn]
    rw [hattrs] at ha
    cases ha
  once := by decide
  leaf := by decide

theorem control_character_not_correct :
    ¬∃ e : Content, e.WellFormed ∧
      kvmPutBody oneField.doc.raw (some ['A', 'b', '3', '\x01', 'd', 'e', 'f', 'G']) true false 0 =
        some e.raw := by
  rintro ⟨e, he, hbody⟩
  exact absurd (isChar_of_wellFormed he hbody rfl (c := '\x01') (by decide)) (by decide)

end Amt

end Paniolo
