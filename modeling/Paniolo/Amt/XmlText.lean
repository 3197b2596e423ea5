import Paniolo.Library.Str

/-!
# Reading an element's text

`xml_text` of `amt/src/rpc.rs`: a scan for start tags over the bytes of a response. Where it would
slice off a character boundary, or index out of range, there is no result. `scan` is the same over
the characters of the text.
-/

namespace Paniolo

namespace Amt

/-- The bytes that a tag's name ends at. -/
def endsName (b : UInt8) : Bool :=
  b == 0x20 || b == 0x09 || b == 0x0D || b == 0x0A || b == 0x3E || b == 0x2F

/-- The end of the name that begins at `start`. -/
def nameEnd (bytes : List UInt8) (start : Nat) : Nat :=
  start + ((bytes.drop start).takeWhile fun b => !endsName b).length

/-- `name.rsplit(':').next()`. -/
def localName (name : List Char) : List Char :=
  match Text.rsplitOnce (· == ':') name with
  | some (_, l) => l
  | none => name

/-- The local name of the tag behind `start`, and where the tag ends, if it does. -/
def tagAt (xml : List Char) (start : Nat) : Option (Option (List Char × Nat)) := do
  let j := nameEnd (Utf8.encode xml) start
  let name ← Str.slice? xml start j
  let rest ← Str.slice? xml j (Str.len xml)
  pure ((Str.find? '>' rest).map fun off => (localName name, off + j))

/-- The text behind the start tag that ends at `gt`. -/
def elementText (xml : List Char) (gt : Nat) : Option (Option (List Char)) := do
  let b ← (Utf8.encode xml)[gt - 1]?
  if b = 0x2F then pure (some [])
  else
    let after ← Str.slice? xml (gt + 1) (Str.len xml)
    match Str.find? '<' after with
    | none => pure none
    | some off =>
        let t ← Str.slice? xml (gt + 1) (off + gt + 1)
        pure (some (Text.trim t))

theorem le_of_tagAt {xml : List Char} {start : Nat} {l : List Char} {gt : Nat}
    (h : tagAt xml start = some (some (l, gt))) : start ≤ gt := by
  obtain ⟨name, -, h⟩ := Option.bind_eq_some_iff.mp h
  obtain ⟨rest, -, h⟩ := Option.bind_eq_some_iff.mp h
  obtain ⟨off, -, h⟩ := Option.map_eq_some_iff.mp (Option.some.inj h)
  rw [← (Prod.mk.inj h).2, nameEnd]
  omega

/-- The loop of `xml_text` from the position `i` on. -/
def xmlTextFrom (xml name : List Char) (i : Nat) : Option (Option (List Char)) :=
  match Str.slice? xml i (Str.len xml) with
  | none => none
  | some s =>
      match Str.find? '<' s with
      | none => some none
      | some off =>
          if Str.len xml ≤ i + off + 1 then some none
          else
            match (Utf8.encode xml)[i + off + 1]? with
            | none => none
            | some b =>
                if b = 0x2F ∨ b = 0x3F ∨ b = 0x21 then xmlTextFrom xml name (i + off + 1)
                else
                  match _htag : tagAt xml (i + off + 1) with
                  | none => none
                  | some none => some none
                  | some (some (l, gt)) =>
                      if l = name then elementText xml gt else xmlTextFrom xml name (gt + 1)
termination_by Str.len xml - i
decreasing_by
  · omega
  · have hle := le_of_tagAt _htag
    omega

/-- The text of the first element with the local name, without white space around it. -/
def xmlText (xml name : List Char) : Option (Option (List Char)) := xmlTextFrom xml name 0

/-! ### Over characters -/

/-- The characters that a tag's name ends at. -/
def endsNameChar (c : Char) : Bool :=
  c == ' ' || c == '\t' || c == '\r' || c == '\n' || c == '>' || c == '/'

/-- One round over what is still to be read: the result, or what is to be read next. -/
def scanStep (name s : List Char) : Option (List Char) ⊕ List Char :=
  match Text.splitOnce (· == '<') s with
  | none => .inl none
  | some (_, []) => .inl none
  | some (_, c :: s') =>
      if c = '/' ∨ c = '?' ∨ c = '!' then .inr (c :: s')
      else
        let tag := (c :: s').takeWhile fun d => !endsNameChar d
        match Text.splitOnce (· == '>') ((c :: s').dropWhile fun d => !endsNameChar d) with
        | none => .inl none
        | some (attrs, after) =>
            if localName tag = name then
              .inl (if ('<' :: (tag ++ attrs)).getLast? = some '/' then some []
                else (Text.splitOnce (· == '<') after).map fun p => Text.trim p.1)
            else .inr after

section ScanStep

variable (name : List Char) {s a rest : List Char} {c : Char}

theorem scanStep_markup (hlt : Text.splitOnce (· == '<') s = some (a, c :: rest))
    (hc : c = '/' ∨ c = '?' ∨ c = '!') : scanStep name s = .inr (c :: rest) := by
  rw [scanStep, hlt]
  exact if_pos hc

theorem scanStep_unclosed (hlt : Text.splitOnce (· == '<') s = some (a, c :: rest))
    (hc : ¬(c = '/' ∨ c = '?' ∨ c = '!'))
    (hgt : Text.splitOnce (· == '>') ((c :: rest).dropWhile fun d => !endsNameChar d) = none) :
    scanStep name s = .inl none := by
  rw [scanStep, hlt]
  dsimp only
  rw [if_neg hc, hgt]

theorem scanStep_tag (hlt : Text.splitOnce (· == '<') s = some (a, c :: rest))
    (hc : ¬(c = '/' ∨ c = '?' ∨ c = '!')) {attrs after : List Char}
    (hgt : Text.splitOnce (· == '>') ((c :: rest).dropWhile fun d => !endsNameChar d) =
      some (attrs, after)) :
    scanStep name s =
      if localName ((c :: rest).takeWhile fun d => !endsNameChar d) = name then
        .inl (if ('<' :: ((c :: rest).takeWhile (fun d => !endsNameChar d) ++ attrs)).getLast? =
            some '/' then some []
          else (Text.splitOnce (· == '<') after).map fun p => Text.trim p.1)
      else .inr after := by
  rw [scanStep, hlt]
  dsimp only
  rw [if_neg hc, hgt]

end ScanStep

theorem length_scanStep {name s s' : List Char} (h : scanStep name s = .inr s') :
    s'.length < s.length := by
  rw [scanStep] at h
  cases hlt : Text.splitOnce (· == '<') s with
  | none =>
      rw [hlt] at h
      cases h
  | some p =>
      obtain ⟨a, rest⟩ := p
      obtain ⟨d, -, rfl, -⟩ := Text.splitOnce_eq_some hlt
      rw [hlt] at h
      cases rest with
      | nil => cases h
      | cons c rest =>
          dsimp only at h
          split at h
          · cases h
            simp only [List.length_append, List.length_cons]
            omega
          · cases hgt : Text.splitOnce (· == '>')
                ((c :: rest).dropWhile fun d => !endsNameChar d) with
            | none =>
                rw [hgt] at h
                cases h
            | some q =>
                obtain ⟨e, -, htag, -⟩ := Text.splitOnce_eq_some hgt
                have hdrop := List.length_dropWhile_le (fun d => !endsNameChar d) (c :: rest)
                rw [htag] at hdrop
                rw [hgt] at h
                dsimp only at h
                split at h
                · cases h
                · cases h
                  simp only [List.length_append, List.length_cons] at hdrop ⊢
                  omega

def scan (name s : List Char) : Option (List Char) :=
  match _h : scanStep name s with
  | .inl r => r
  | .inr s' => scan name s'
termination_by s.length
decreasing_by exact length_scanStep _h

theorem scan_of_inl {name s : List Char} {r : Option (List Char)} (h : scanStep name s = .inl r) :
    scan name s = r := by
  rw [scan]
  split
  · next heq => exact Sum.inl.inj (heq.symm.trans h)
  · next heq => cases heq.symm.trans h

theorem scan_of_inr {name s s' : List Char} (h : scanStep name s = .inr s') :
    scan name s = scan name s' := by
  rw [scan]
  split
  · next heq => cases heq.symm.trans h
  · next heq => rw [Sum.inr.inj (heq.symm.trans h)]

theorem endsName_eq (c : Char) (b : UInt8) (hb : b ∈ String.utf8EncodeChar c) :
    (!endsName b) = !endsNameChar c := by
  have heq : ∀ d : Char, d.toNat < 0x80 → (b == UInt8.ofNat d.toNat) = (c == d) := by
    intro d hd
    rw [Bool.eq_iff_iff, beq_iff_eq, beq_iff_eq]
    exact Str.byte_eq_iff hd hb
  rw [endsName, endsNameChar, ← heq ' ' (by decide), ← heq '\t' (by decide),
    ← heq '\r' (by decide), ← heq '\n' (by decide), ← heq '>' (by decide), ← heq '/' (by decide)]
  rfl

theorem nameEnd_append (a s : List Char) :
    nameEnd (Utf8.encode (a ++ s)) (Str.len a) =
      Str.len (a ++ s.takeWhile fun c => !endsNameChar c) := by
  rw [nameEnd, Utf8.encode_append, Str.len, List.drop_left,
    Str.length_takeWhile_encode endsName_eq, Str.len_append, Str.len]
  rfl

/-- The tag that begins behind `a`. -/
theorem tagAt_append (a s : List Char) :
    tagAt (a ++ s) (Str.len a) =
      some ((Text.splitOnce (· == '>') (s.dropWhile fun c => !endsNameChar c)).map fun p =>
        (localName (s.takeWhile fun c => !endsNameChar c),
          Str.len (a ++ s.takeWhile (fun c => !endsNameChar c) ++ p.1))) := by
  have hsplit : a ++ s = a ++ s.takeWhile (fun c => !endsNameChar c) ++
      s.dropWhile fun c => !endsNameChar c := by
    rw [List.append_assoc, List.takeWhile_append_dropWhile]
  have hname := Str.slice?_append a (s.takeWhile fun c => !endsNameChar c)
    (s.dropWhile fun c => !endsNameChar c)
  have hrest := Str.slice?_to_end (a ++ s.takeWhile fun c => !endsNameChar c)
    (s.dropWhile fun c => !endsNameChar c)
  rw [← hsplit] at hname hrest
  rw [tagAt, nameEnd_append]
  change (Str.slice? (a ++ s) _ _).bind _ = _
  rw [hname, Option.bind_some]
  change (Str.slice? (a ++ s) _ _).bind _ = _
  rw [hrest, Option.bind_some, Str.find?, Option.map_map]
  refine congrArg some (congrArg (Option.map · _) (funext fun p => ?_))
  rw [Function.comp_apply, Str.len_append _ p.1, Nat.add_comm]

theorem elementText_append {a : List Char} (ha : a ≠ []) (after : List Char) :
    elementText (a ++ '>' :: after) (Str.len a) =
      some (if a.getLast? = some '/' then some []
        else (Text.splitOnce (· == '<') after).map fun p => Text.trim p.1) := by
  obtain ⟨a', c, hc⟩ := (List.eq_nil_or_concat a).resolve_left ha
  rw [List.concat_eq_append] at hc
  obtain ⟨b, hb, hmem⟩ := Str.getElem?_len_pred a' c ('>' :: after)
  have hslash : b = 0x2F ↔ c = '/' := Str.byte_eq_iff (d := '/') (by decide) hmem
  have hlast : a.getLast? = some '/' ↔ c = '/' := by
    rw [hc, List.getLast?_concat, Option.some.injEq]
  have hgt : a ++ '>' :: after = a ++ ['>'] ++ after := by rw [List.append_assoc]; rfl
  have hpos : Str.len a + 1 = Str.len (a ++ ['>']) := Str.len_append a ['>'] ▸ rfl
  have hafter := Str.slice?_to_end (a ++ ['>']) after
  have hat : (Utf8.encode (a ++ '>' :: after))[Str.len a - 1]? = some b := by
    rw [hc, List.append_assoc]
    exact hb
  rw [elementText, hat]
  change (if b = 0x2F then some (some []) else _) = _
  by_cases hself : c = '/'
  · rw [if_pos (hslash.mpr hself), if_pos (hlast.mpr hself)]
  · rw [if_neg fun h => hself (hslash.mp h), if_neg fun h => hself (hlast.mp h), hpos, hgt]
    change (Str.slice? _ _ _).bind _ = _
    rw [hafter, Option.bind_some]
    cases hlt : Text.splitOnce (· == '<') after with
    | none =>
        rw [Str.find?_eq_none hlt]
        rfl
    | some p =>
        obtain ⟨t, rest⟩ := p
        obtain ⟨d, hd, hsplit, -⟩ := Text.splitOnce_eq_some hlt
        have hend : Str.len t + Str.len a + 1 = Str.len (a ++ ['>'] ++ t) := by
          rw [Str.len_append (a ++ ['>']), ← hpos]
          omega
        have htext := Str.slice?_append (a ++ ['>']) t (d :: rest)
        rw [List.append_assoc (a ++ ['>']), ← hsplit] at htext
        rw [Str.find?_eq_some hlt]
        change (Str.slice? _ _ (Str.len t + Str.len a + 1)).bind _ = _
        rw [hend, htext]
        rfl

/-- The loop over the bytes of `a ++ s`, at the end of `a`, follows a round over characters: it has
the same result, or goes on at the same place. -/
def Follows (name a s : List Char) : Option (List Char) ⊕ List Char → Prop
  | .inl r => xmlTextFrom (a ++ s) name (Str.len a) = some r
  | .inr s' => ∃ r, s = r ++ s' ∧
      xmlTextFrom (a ++ s) name (Str.len a) = xmlTextFrom (a ++ s) name (Str.len (a ++ r))

/-- At the tag behind `a`. -/
theorem follows_tag (name a b s tag attrs after : List Char)
    (hs : s = b ++ '<' :: (tag ++ attrs) ++ '>' :: after)
    (hround : xmlTextFrom (a ++ s) name (Str.len a) =
      if localName tag = name then elementText (a ++ s) (Str.len (a ++ (b ++ ['<']) ++ tag ++ attrs))
      else xmlTextFrom (a ++ s) name (Str.len (a ++ (b ++ ['<']) ++ tag ++ attrs) + 1)) :
    Follows name a s (if localName tag = name then
        .inl (if ('<' :: (tag ++ attrs)).getLast? = some '/' then some []
          else (Text.splitOnce (· == '<') after).map fun p => Text.trim p.1)
      else .inr after) := by
  have hopen : a ++ (b ++ ['<']) ++ tag ++ attrs = a ++ b ++ '<' :: (tag ++ attrs) := by
    simp only [List.append_assoc, List.cons_append, List.nil_append]
  have hxml : a ++ s = a ++ b ++ '<' :: (tag ++ attrs) ++ '>' :: after := by
    rw [hs]
    simp only [List.append_assoc]
  rw [hopen] at hround
  by_cases hname : localName tag = name
  · have hne : a ++ b ++ '<' :: (tag ++ attrs) ≠ [] :=
      List.append_ne_nil_of_right_ne_nil _ (List.cons_ne_nil _ _)
    rw [if_pos hname] at hround ⊢
    refine hround.trans ?_
    rw [hxml, elementText_append hne, List.getLast?_append_of_ne_nil _ (List.cons_ne_nil _ _)]
  · have hpos : Str.len (a ++ b ++ '<' :: (tag ++ attrs)) + 1 =
        Str.len (a ++ (b ++ '<' :: (tag ++ attrs) ++ ['>'])) := by
      have hone : Str.len ['>'] = 1 := rfl
      simp only [Str.len_append]
      omega
    rw [if_neg hname] at hround ⊢
    refine ⟨b ++ '<' :: (tag ++ attrs) ++ ['>'], ?_, hround.trans (by rw [hpos])⟩
    rw [hs]
    simp only [List.append_assoc, List.cons_append, List.nil_append]

theorem xmlTextFrom_round (name a s : List Char) : Follows name a s (scanStep name s) := by
  have hstart : xmlTextFrom (a ++ s) name (Str.len a) =
      xmlTextFrom (a ++ s) name (Str.len a) := rfl
  conv_rhs at hstart => rw [xmlTextFrom, Str.slice?_to_end]
  dsimp only at hstart
  cases hlt : Text.splitOnce (· == '<') s with
  | none =>
      rw [scanStep, hlt]
      refine hstart.trans ?_
      rw [Str.find?_eq_none hlt]
  | some p =>
      obtain ⟨b, rest⟩ := p
      obtain ⟨d, hd, hs, -⟩ := Text.splitOnce_eq_some hlt
      rw [beq_iff_eq.mp hd] at hs
      have hpos : Str.len a + Str.len b + 1 = Str.len (a ++ (b ++ ['<'])) := by
        rw [Str.len_append, Str.len_append]
        rfl
      have hxml : a ++ s = a ++ (b ++ ['<']) ++ rest := by
        rw [hs]
        simp only [List.append_assoc, List.cons_append, List.nil_append]
      rw [Str.find?_eq_some hlt] at hstart
      dsimp only at hstart
      rw [hpos] at hstart
      cases rest with
      | nil =>
          rw [List.append_nil] at hxml
          rw [scanStep, hlt]
          refine hstart.trans (if_pos ?_)
          rw [hxml]
      | cons c rest =>
          obtain ⟨x, hx, hmem⟩ := Str.getElem?_len (a ++ (b ++ ['<'])) c rest
          have hmarkup : (x = 0x2F ∨ x = 0x3F ∨ x = 0x21) ↔ c = '/' ∨ c = '?' ∨ c = '!' := by
            have heq : ∀ d : Char, d.toNat < 0x80 → (x = UInt8.ofNat d.toNat ↔ c = d) :=
              fun d hd => Str.byte_eq_iff hd hmem
            rw [← heq '/' (by decide), ← heq '?' (by decide), ← heq '!' (by decide)]
            rfl
          have hmore : ¬Str.len (a ++ s) ≤ Str.len (a ++ (b ++ ['<'])) := by
            have hsize := c.utf8Size_pos
            rw [hxml, Str.len_append _ (c :: rest), Str.len_cons]
            omega
          rw [← hxml] at hx
          rw [if_neg hmore, hx] at hstart
          dsimp only at hstart
          by_cases hc : c = '/' ∨ c = '?' ∨ c = '!'
          · rw [if_pos (hmarkup.mpr hc)] at hstart
            rw [scanStep_markup name hlt hc]
            refine ⟨b ++ ['<'], ?_, hstart⟩
            rw [hs, List.append_assoc]
            rfl
          · rw [if_neg fun h => hc (hmarkup.mp h)] at hstart
            have htag := tagAt_append (a ++ (b ++ ['<'])) (c :: rest)
            have hsplit := List.takeWhile_append_dropWhile
              (p := fun d => !endsNameChar d) (l := c :: rest)
            rw [← hxml] at htag
            cases hgt : Text.splitOnce (· == '>')
                ((c :: rest).dropWhile fun d => !endsNameChar d) with
            | none =>
                rw [hgt] at htag
                rw [scanStep_unclosed name hlt hc hgt]
                refine hstart.trans ?_
                split
                · next h => cases htag.symm.trans h
                · rfl
                · next h => cases htag.symm.trans h
            | some q =>
                obtain ⟨attrs, after⟩ := q
                obtain ⟨e, he, hdrop, -⟩ := Text.splitOnce_eq_some hgt
                rw [beq_iff_eq.mp he] at hdrop
                rw [hgt] at htag
                rw [scanStep_tag name hlt hc hgt]
                have hopen := hs.trans
                  (congrArg (fun l => b ++ '<' :: l) (hsplit.symm.trans (by rw [hdrop])))
                refine follows_tag name a b s _ attrs after (hopen.trans ?_) (hstart.trans ?_)
                · simp only [List.append_assoc, List.cons_append]
                · split
                  · next h => cases htag.symm.trans h
                  · next h => cases htag.symm.trans h
                  · next l gt h =>
                      obtain ⟨rfl, rfl⟩ := Prod.mk.inj (Option.some.inj (Option.some.inj
                        (htag.symm.trans h)))
                      rfl

/-- The scan over bytes is the one over characters: it slices where characters begin, and it
indexes within the text. -/
theorem xmlTextFrom_eq (name s a : List Char) :
    xmlTextFrom (a ++ s) name (Str.len a) = some (scan name s) := by
  induction hn : s.length using Nat.strong_induction_on generalizing s a with
  | _ n ih =>
      have hround := xmlTextFrom_round name a s
      cases hstep : scanStep name s with
      | inl r =>
          rw [hstep] at hround
          rw [scan_of_inl hstep]
          exact hround
      | inr s' =>
          rw [hstep] at hround
          obtain ⟨r, rfl, hgo⟩ := hround
          have hlt := length_scanStep hstep
          rw [scan_of_inr hstep, hgo, ← List.append_assoc]
          exact ih s'.length (hn ▸ hlt) s' (a ++ r) rfl

theorem xmlText_eq (xml name : List Char) : xmlText xml name = some (scan name xml) :=
  xmlTextFrom_eq name xml []

end Amt

end Paniolo
