import Paniolo.Library.Ecma48
import Paniolo.Library.Text
import Paniolo.Library.Utf8

/-!
# Console text without its escape sequences

`strip_ansi` goes over the bytes of a line, leaves the escape sequences out,
keeps what follows the last carriage return and drops what does not print.

An escape with intermediate characters, as `ESC ( B`, is taken for one of two
bytes: the rest of it stays in the text. `stripAnsi_chars_iff` says that the
text of a line comes out exactly when it has no such sequence.
-/

namespace Paniolo

namespace Serialcap

namespace LineLog

open Utf8 Text Ecma48

/-- `char::is_control`. -/
def isControl (c : Char) : Bool := c.toNat < 0x20 || (0x7f ≤ c.toNat && c.toNat < 0xa0)

/-- True for the Unicode "format" (Cf) characters that matter in text pulled off a
terminal-derived stream. -/
def isFormatChar (c : Char) : Bool :=
  c.toNat == 0x00AD || (0x0600 ≤ c.toNat && c.toNat ≤ 0x0605) || c.toNat == 0x061C ||
    c.toNat == 0x06DD || c.toNat == 0x070F || (0x200B ≤ c.toNat && c.toNat ≤ 0x200F) ||
    (0x202A ≤ c.toNat && c.toNat ≤ 0x202E) || (0x2060 ≤ c.toNat && c.toNat ≤ 0x2064) ||
    (0x2066 ≤ c.toNat && c.toNat ≤ 0x2069) || c.toNat == 0xFEFF

/-- CSI: parameters/intermediates until a final byte. -/
def skipCsi (l : List UInt8) : List UInt8 :=
  (l.dropWhile fun b => !(0x40 ≤ b && b ≤ 0x7e)).drop 1

/-- OSC, DCS, APC, PM, SOS: until BEL or ST. -/
def skipString : List UInt8 → List UInt8
  | [] => []
  | b :: rest =>
      if b = 0x07 then rest
      else if b = 0x1b ∧ rest.head? = some 0x5c then rest.drop 1
      else skipString rest

/-- The introducers of the strings: `]`, `P`, `_`, `^` and `X`. -/
def stringIntroducers : List UInt8 := [0x5d, 0x50, 0x5f, 0x5e, 0x58]

/-- What is left of the line after an escape and its sequence. -/
def afterEscape : List UInt8 → List UInt8
  | [] => []
  | c :: rest =>
      if c = 0x5b then skipCsi rest
      else if c ∈ stringIntroducers then skipString rest
      else rest

/-- The loop of `strip_ansi`; each round takes at least one byte, so the length of the line is
enough fuel. -/
def stripLoop : Nat → List UInt8 → List UInt8
  | 0, _ => []
  | _ + 1, [] => []
  | fuel + 1, b :: rest =>
      if b = 0x1b then stripLoop fuel (afterEscape rest) else b :: stripLoop fuel rest

/-- The bytes that are left. -/
def stripBytes (l : List UInt8) : List UInt8 := stripLoop l.length l

/-- The characters that are kept at the end. -/
def isKept (c : Char) : Bool := (c == '\t' || !isControl c) && !isFormatChar c

/-- Strip ANSI escape sequences and control noise for readable, agent-friendly text. -/
def stripAnsi (s : List Char) : List Char :=
  let cleaned := decode (stripBytes (encode s))
  let cleaned :=
    match rsplitOnce (· == '\r') cleaned with
    | some (_, last) => last
    | none => cleaned
  cleaned.filter isKept

theorem length_skipCsi_le (l : List UInt8) : (skipCsi l).length ≤ l.length := by
  rw [skipCsi, List.length_drop]
  exact (Nat.sub_le _ _).trans (List.dropWhile_sublist _).length_le

theorem length_skipString_le (l : List UInt8) : (skipString l).length ≤ l.length := by
  induction l with
  | nil => exact le_rfl
  | cons b rest ih =>
      rw [skipString, List.length_cons]
      split
      · omega
      · split
        · rw [List.length_drop]
          omega
        · omega

theorem length_afterEscape_le (l : List UInt8) : (afterEscape l).length ≤ l.length := by
  cases l with
  | nil => exact le_rfl
  | cons c rest =>
      rw [afterEscape, List.length_cons]
      have hcsi := length_skipCsi_le rest
      have hstring := length_skipString_le rest
      split
      · omega
      · split <;> omega

theorem stripLoop_eq (f g : Nat) {l : List UInt8} (hf : l.length ≤ f) (hg : l.length ≤ g) :
    stripLoop f l = stripLoop g l := by
  induction f generalizing g l with
  | zero =>
      obtain rfl : l = [] := List.length_eq_zero_iff.mp (Nat.le_zero.mp hf)
      cases g <;> rfl
  | succ f ih =>
      cases l with
      | nil => cases g <;> rfl
      | cons b rest =>
          obtain ⟨g, rfl⟩ : ∃ k, g = k + 1 := ⟨g - 1, by rw [List.length_cons] at hg; omega⟩
          rw [List.length_cons] at hf hg
          have hle := length_afterEscape_le rest
          have hrest : stripLoop f rest = stripLoop g rest := ih g (by omega) (by omega)
          have hafter : stripLoop f (afterEscape rest) = stripLoop g (afterEscape rest) :=
            ih g (by omega) (by omega)
          rw [stripLoop, stripLoop, hrest, hafter]

@[simp]
theorem stripBytes_nil : stripBytes [] = [] := rfl

theorem stripBytes_escape (rest : List UInt8) :
    stripBytes (0x1b :: rest) = stripBytes (afterEscape rest) := by
  rw [stripBytes, List.length_cons, stripLoop, if_pos rfl]
  exact stripLoop_eq _ _ (length_afterEscape_le rest) le_rfl

theorem stripBytes_cons {b : UInt8} (hb : b ≠ 0x1b) (rest : List UInt8) :
    stripBytes (b :: rest) = b :: stripBytes rest := by
  rw [stripBytes, List.length_cons, stripLoop, if_neg hb, stripBytes]

theorem stripBytes_append {l : List UInt8} (hl : (0x1b : UInt8) ∉ l) (rest : List UInt8) :
    stripBytes (l ++ rest) = l ++ stripBytes rest := by
  induction l with
  | nil => rfl
  | cons b l ih =>
      have hb : b ≠ 0x1b := fun h => hl (h ▸ List.mem_cons_self)
      rw [List.cons_append, stripBytes_cons hb, ih fun h => hl (List.mem_cons_of_mem b h),
        List.cons_append]

/-- A command string is skipped up to its end. -/
theorem skipString_append {l : List UInt8} (hl : ∀ b ∈ l, b ≠ 0x07 ∧ b ≠ 0x1b)
    (rest : List UInt8) : skipString (l ++ rest) = skipString rest := by
  induction l with
  | nil => rfl
  | cons b l ih =>
      obtain ⟨hbel, hesc⟩ := hl b List.mem_cons_self
      rw [List.cons_append, skipString, if_neg hbel, if_neg (fun h => hesc h.1),
        ih fun x hx => hl x (List.mem_cons_of_mem b hx)]

/-- A control sequence is skipped up to its final byte. -/
theorem skipCsi_append {l : List UInt8} (hl : ∀ b ∈ l, b < 0x40) {final : UInt8}
    (hfinal : 0x40 ≤ final ∧ final ≤ 0x7e) (rest : List UInt8) :
    skipCsi (l ++ final :: rest) = rest := by
  rw [skipCsi, List.dropWhile_append_of_pos, List.dropWhile_cons_of_neg]
  · rfl
  · simp [hfinal.1, hfinal.2]
  · intro b hb
    have hlt := hl b hb
    simp [UInt8.not_le.mpr hlt]

section Encoded

variable {lo hi : Nat} {c : Char}

/-- The bytes of a character are its own code, or above those of ASCII. -/
theorem toNat_of_mem_utf8EncodeChar {b : UInt8} (hb : b ∈ String.utf8EncodeChar c) :
    (b.toNat = c.toNat ∧ c.toNat < 0x80) ∨ 0x80 ≤ b.toNat := by
  rcases utf8EncodeChar_cases c with ⟨hlt, henc⟩ | ⟨-, henc⟩
  · left
    rw [henc, List.mem_singleton] at hb
    subst hb
    rw [UInt8.toNat_ofNat']
    omega
  · exact .inr (henc b hb)

theorem encode_ascii (hc : c.toNat < 0x80) (cs : List Char) :
    encode (c :: cs) = UInt8.ofNat c.toNat :: encode cs := by
  rcases utf8EncodeChar_cases c with ⟨-, henc⟩ | ⟨hge, -⟩
  · rw [encode_cons, henc]
    rfl
  · omega

theorem encode_asciis {cs : List Char} (hcs : ∀ c ∈ cs, c.toNat < 0x80) :
    encode cs = cs.map fun c => UInt8.ofNat c.toNat := by
  induction cs with
  | nil => rfl
  | cons c cs ih =>
      rw [encode_ascii (hcs c List.mem_cons_self), List.map_cons,
        ih fun x hx => hcs x (List.mem_cons_of_mem c hx)]

theorem mem_encode {cs : List Char} {b : UInt8} (hb : b ∈ encode cs) :
    (∃ c ∈ cs, b.toNat = c.toNat) ∨ 0x80 ≤ b.toNat := by
  obtain ⟨c, hc, hb⟩ := List.mem_flatMap.mp hb
  rcases toNat_of_mem_utf8EncodeChar hb with ⟨heq, -⟩ | hge
  · exact .inl ⟨c, hc, heq⟩
  · exact .inr hge

/-- The bytes of text that has no such character have no such byte. -/
theorem not_mem_encode {cs : List Char} {b : UInt8} (hb : b.toNat < 0x80)
    (hcs : ∀ c ∈ cs, c.toNat ≠ b.toNat) : b ∉ encode cs := by
  intro h
  rcases mem_encode h with ⟨c, hc, heq⟩ | hge
  · exact hcs c hc heq.symm
  · omega

end Encoded

/-- What `strip_ansi` leaves of a piece. -/
def left : Piece (isKept · = true) → List Char
  | .char c _ => [c]
  | .sequence (.designation _ more final _ _ _) => more ++ [final]
  | .sequence _ => []

theorem toNat_ne_of_isKept {c : Char} (h : isKept c = true) : c.toNat ≠ 0x1b ∧ c.toNat ≠ 0x0d := by
  have hcontrol : c = '\t' ∨ isControl c = false := by
    rw [isKept, Bool.and_eq_true, Bool.or_eq_true, beq_iff_eq, Bool.not_eq_true'] at h
    exact h.1
  rcases hcontrol with rfl | hcontrol
  · decide
  · rw [isControl, Bool.or_eq_false_iff, decide_eq_false_iff_not] at hcontrol
    omega

theorem afterEscape_csi {body : List Char} {final : Char} (hbody : ∀ c ∈ body, c.toNat < 0x40)
    (hfinal : Between 0x40 0x7e final) (rest : List UInt8) :
    afterEscape (encode ('[' :: (body ++ [final])) ++ rest) = rest := by
  have hascii : ∀ c ∈ body, c.toNat < 0x80 := fun c hc => (hbody c hc).trans (by decide)
  obtain ⟨hlo, hhi⟩ := hfinal
  have hto : (UInt8.ofNat final.toNat).toNat = final.toNat := by
    rw [UInt8.toNat_ofNat']
    omega
  rw [encode_ascii (by decide), encode_append, encode_asciis hascii, encode_ascii (by omega),
    encode_nil, List.cons_append, List.append_assoc, List.singleton_append, afterEscape,
    if_pos (by decide)]
  refine skipCsi_append ?_ ?_ rest
  · intro b hb
    obtain ⟨c, hc, rfl⟩ := List.mem_map.mp hb
    have hlt := hbody c hc
    rw [UInt8.lt_iff_toNat_lt, UInt8.toNat_ofNat']
    change _ < 64
    omega
  · rw [UInt8.le_iff_toNat_le, UInt8.le_iff_toNat_le, hto]
    exact ⟨hlo, hhi⟩

theorem skipString_terminator (terminator : Terminator) (rest : List UInt8) :
    skipString (encode terminator.chars ++ rest) = rest := by
  cases terminator with
  | bel => rfl
  | st => rfl

theorem afterEscape_string (kind : StringKind) {payload : List Char} (terminator : Terminator)
    (hpayload : ∀ c ∈ payload, c ≠ BEL ∧ c ≠ ESC) (rest : List UInt8) :
    afterEscape (encode (kind.opening :: (payload ++ terminator.chars)) ++ rest) = rest := by
  have hopening : kind.opening.toNat < 0x80 ∧
      (UInt8.ofNat kind.opening.toNat) ≠ 0x5b ∧
      (UInt8.ofNat kind.opening.toNat) ∈ stringIntroducers := by
    cases kind <;> decide
  have hbytes : ∀ b ∈ encode payload, b ≠ 0x07 ∧ b ≠ 0x1b := by
    intro b hb
    constructor
    · rintro rfl
      refine not_mem_encode (by decide) (fun c hc heq => (hpayload c hc).1 ?_) hb
      exact Char.toNat_inj.mp heq
    · rintro rfl
      refine not_mem_encode (by decide) (fun c hc heq => (hpayload c hc).2 ?_) hb
      exact Char.toNat_inj.mp heq
  rw [encode_ascii hopening.1, List.cons_append, encode_append, List.append_assoc, afterEscape,
    if_neg hopening.2.1, if_pos hopening.2.2, skipString_append hbytes,
    skipString_terminator]

theorem byte_ne {c d : Char} (hc : c.toNat < 0x80) (hd : d.toNat < 0x80) (hne : c ≠ d) :
    UInt8.ofNat c.toNat ≠ UInt8.ofNat d.toNat := by
  intro h
  have hnat := congrArg UInt8.toNat h
  rw [UInt8.toNat_ofNat', UInt8.toNat_ofNat', Nat.mod_eq_of_lt (by omega),
    Nat.mod_eq_of_lt (by omega)] at hnat
  exact hne (Char.toNat_inj.mp hnat)

theorem afterEscape_other {c : Char} (hc : c.toNat < 0x80) (hcsi : c ≠ '[')
    (hstring : ∀ kind : StringKind, c ≠ kind.opening) (cs : List Char) (rest : List UInt8) :
    afterEscape (encode (c :: cs) ++ rest) = encode cs ++ rest := by
  have hbracket : UInt8.ofNat c.toNat ≠ 0x5b := byte_ne (d := '[') hc (by decide) hcsi
  have hkind : ∀ kind : StringKind, UInt8.ofNat c.toNat ≠ UInt8.ofNat kind.opening.toNat :=
    fun kind => byte_ne hc (by cases kind <;> decide) (hstring kind)
  have hintroducer : UInt8.ofNat c.toNat ∉ stringIntroducers := by
    intro h
    simp only [stringIntroducers, List.mem_cons, List.not_mem_nil, or_false] at h
    rcases h with h | h | h | h | h
    · exact hkind .osc h
    · exact hkind .dcs h
    · exact hkind .apc h
    · exact hkind .pm h
    · exact hkind .sos h
  rw [encode_ascii hc, List.cons_append, afterEscape, if_neg hbracket, if_neg hintroducer]

/-- What one piece leaves among the bytes. -/
theorem stripBytes_piece (p : Piece (isKept · = true)) (rest : List UInt8) :
    stripBytes (encode p.chars ++ rest) = encode (left p) ++ stripBytes rest := by
  have hescape : ∀ cs : List Char, encode (ESC :: cs) ++ rest = 0x1b :: (encode cs ++ rest) :=
    fun cs => by
      rw [encode_ascii (by decide)]
      rfl
  cases p with
  | char c h =>
      refine stripBytes_append (not_mem_encode (by decide) fun x hx => ?_) rest
      rw [List.mem_singleton.mp hx]
      exact (toNat_ne_of_isKept h).1
  | sequence s =>
      cases s with
      | csi parameters intermediates final hparameters hintermediates hfinal =>
          have hbody : ∀ c ∈ parameters ++ intermediates, c.toNat < 0x40 := by
            intro c hc
            rcases List.mem_append.mp hc with hc | hc
            · exact (hparameters c hc).2.trans_lt (by decide)
            · exact (hintermediates c hc).2.trans_lt (by decide)
          change stripBytes (encode (ESC :: _) ++ rest) = _
          rw [hescape, stripBytes_escape, afterEscape_csi hbody hfinal]
          rfl
      | string kind payload terminator hpayload =>
          change stripBytes (encode (ESC :: _) ++ rest) = _
          rw [hescape, stripBytes_escape, afterEscape_string kind terminator hpayload]
          rfl
      | designation first more final hfirst hmore hfinal =>
          obtain ⟨hlo, hhi⟩ := hfirst
          have hcsi : first ≠ '[' := by
            rintro rfl
            exact absurd hhi (by decide)
          have hstring : ∀ kind : StringKind, first ≠ kind.opening := by
            rintro kind rfl
            exact absurd hhi (by cases kind <;> decide)
          have hclean : (0x1b : UInt8) ∉ encode (more ++ [final]) := by
            refine not_mem_encode (by decide) fun x hx => ?_
            change x.toNat ≠ 27
            rcases List.mem_append.mp hx with hx | hx
            · have hge := (hmore x hx).1
              omega
            · have hge := (List.mem_singleton.mp hx ▸ hfinal : Between 0x30 0x7e x).1
              omega
          change stripBytes (encode (ESC :: _) ++ rest) = _
          rw [hescape, stripBytes_escape, afterEscape_other (by omega) hcsi hstring,
            stripBytes_append hclean]
          rfl
      | single final hfinal hcsi hstring =>
          change stripBytes (encode (ESC :: _) ++ rest) = _
          have hlt : final.toNat < 0x80 := hfinal.2.trans_lt (by decide)
          rw [hescape, stripBytes_escape, afterEscape_other hlt hcsi hstring]
          rfl

/-- What a whole line leaves. -/
theorem stripBytes_chars (line : List (Piece (isKept · = true))) :
    stripBytes (encode (chars line)) = encode (line.flatMap left) := by
  induction line with
  | nil => rfl
  | cons p line ih =>
      change stripBytes (encode (p.chars ++ chars line)) = encode (left p ++ line.flatMap left)
      rw [encode_append, stripBytes_piece, ih, encode_append]

theorem isKept_of_between {c : Char} (h : Between 0x20 0x7e c) : isKept c = true := by
  obtain ⟨hlo, hhi⟩ := h
  have hcontrol : isControl c = false := by
    rw [isControl, Bool.or_eq_false_iff, Bool.and_eq_false_iff]
    simp only [decide_eq_false_iff_not]
    omega
  have hformat : isFormatChar c = false := by
    simp only [isFormatChar, Bool.or_eq_false_iff, Bool.and_eq_false_iff, beq_eq_false_iff_ne,
      decide_eq_false_iff_not]
    omega
  rw [isKept, hcontrol, hformat]
  simp

/-- All that is left prints. -/
theorem isKept_of_mem_left {p : Piece (isKept · = true)} {c : Char} (hc : c ∈ left p) :
    isKept c = true := by
  cases p with
  | char x h =>
      rw [List.mem_singleton.mp hc]
      exact h
  | sequence s =>
      cases s with
      | designation first more final hfirst hmore hfinal =>
          rcases List.mem_append.mp hc with hc | hc
          · obtain ⟨hlo, hhi⟩ := hmore c hc
            exact isKept_of_between ⟨hlo, hhi.trans (by decide)⟩
          · rw [List.mem_singleton.mp hc]
            exact isKept_of_between ⟨le_trans (by decide) hfinal.1, hfinal.2⟩
      | csi => cases hc
      | string => cases hc
      | single => cases hc

/-- Text that prints is left as it is by the end of `strip_ansi`. -/
theorem stripAnsi_of_stripBytes {s cs : List Char} (h : stripBytes (encode s) = encode cs)
    (hcs : ∀ c ∈ cs, isKept c = true) : stripAnsi s = cs := by
  have hdecode : decode (encode cs) = cs := by
    have happ := decode_encode_append cs []
    rwa [List.append_nil, show decode [] = [] from rfl, List.append_nil] at happ
  have hreturn : rsplitOnce (· == '\r') cs = none := by
    refine rsplitOnce_none fun c hc => beq_eq_false_iff_ne.mpr ?_
    rintro rfl
    exact (toNat_ne_of_isKept (hcs _ hc)).2 rfl
  rw [stripAnsi, h, hdecode, hreturn]
  exact List.filter_eq_self.mpr hcs

theorem stripAnsi_chars (line : List (Piece (isKept · = true))) :
    stripAnsi (chars line) = line.flatMap left := by
  refine stripAnsi_of_stripBytes (stripBytes_chars line) fun c hc => ?_
  obtain ⟨p, -, hc⟩ := List.mem_flatMap.mp hc
  exact isKept_of_mem_left hc

/-- Every character of the result is printable or a tab. -/
theorem isKept_of_mem_stripAnsi {s : List Char} {c : Char} (hc : c ∈ stripAnsi s) :
    isKept c = true :=
  (List.mem_filter.mp hc).2

example : stripAnsi (ESC :: "[1;32mgreen".toList ++ ESC :: "[0m text".toList) =
    "green text".toList := by decide

example : stripAnsi "progress 10%\rprogress 90%".toList = "progress 90%".toList := by decide

theorem stripAnsi_stripAnsi (s : List Char) : stripAnsi (stripAnsi s) = stripAnsi s := by
  have hkept : ∀ c ∈ stripAnsi s, isKept c = true := fun c hc => isKept_of_mem_stripAnsi hc
  have hescape : (0x1b : UInt8) ∉ encode (stripAnsi s) :=
    not_mem_encode (by decide) fun c hc => (toNat_ne_of_isKept (hkept c hc)).1
  refine stripAnsi_of_stripBytes ?_ hkept
  have happ := stripBytes_append hescape []
  rwa [List.append_nil, stripBytes_nil, List.append_nil] at happ

/-- A designation leaves something behind, and nothing else does. -/
theorem left_cases (p : Piece (isKept · = true)) :
    (p.IsDesignation ∧ p.text.length < (left p).length) ∨
      (¬ p.IsDesignation ∧ left p = p.text) := by
  cases p with
  | char c h => exact .inr ⟨id, rfl⟩
  | sequence s =>
      cases s with
      | csi => exact .inr ⟨id, rfl⟩
      | string => exact .inr ⟨id, rfl⟩
      | designation first more final hfirst hmore hfinal =>
          refine .inl ⟨trivial, ?_⟩
          change 0 < (more ++ [final]).length
          rw [List.length_append]
          exact Nat.succ_pos _
      | single => exact .inr ⟨id, rfl⟩

theorem length_text_le (line : List (Piece (isKept · = true))) :
    (text line).length ≤ (line.flatMap left).length := by
  induction line with
  | nil => exact le_rfl
  | cons p line ih =>
      have hp : p.text.length ≤ (left p).length := by
        rcases left_cases p with ⟨-, hlt⟩ | ⟨-, heq⟩
        · exact hlt.le
        · exact heq ▸ le_rfl
      change (p.text ++ text line).length ≤ (left p ++ line.flatMap left).length
      rw [List.length_append, List.length_append]
      exact Nat.add_le_add hp ih

theorem flatMap_left_eq_text_iff (line : List (Piece (isKept · = true))) :
    line.flatMap left = text line ↔ ∀ p ∈ line, ¬ p.IsDesignation := by
  induction line with
  | nil => simp [text]
  | cons p line ih =>
      change left p ++ line.flatMap left = p.text ++ text line ↔ _
      rw [List.forall_mem_cons]
      rcases left_cases p with ⟨hdesignation, hlt⟩ | ⟨hother, heq⟩
      · refine iff_of_false (fun h => ?_) fun h => h.1 hdesignation
        have hlength := congrArg List.length h
        rw [List.length_append, List.length_append] at hlength
        have hle := length_text_le line
        omega
      · rw [heq, List.append_cancel_left_eq, ih]
        exact (and_iff_right hother).symm

/-- A line comes out as its text exactly when no escape in it is followed by intermediate
characters; what comes out, of any line at all, is free of noise and stays as it is. -/
theorem stripAnsi_chars_iff (line : List (Piece (isKept · = true))) (s : List Char) :
    (stripAnsi (chars line) = text line ↔ ∀ p ∈ line, ¬ p.IsDesignation) ∧
      (∀ c ∈ stripAnsi s, (c = '\t' ∨ isControl c = false) ∧ isFormatChar c = false) ∧
      stripAnsi (stripAnsi s) = stripAnsi s := by
  refine ⟨?_, fun c hc => ?_, stripAnsi_stripAnsi s⟩
  · rw [stripAnsi_chars]
    exact flatMap_left_eq_text_iff line
  · have hkept := isKept_of_mem_stripAnsi hc
    rw [isKept, Bool.and_eq_true, Bool.or_eq_true, beq_iff_eq, Bool.not_eq_true',
      Bool.not_eq_true'] at hkept
    exact hkept

/-- `ESC ( B`, which selects ASCII, leaves its `B` in front of the prompt. -/
theorem stripAnsi_designation :
    stripAnsi (ESC :: '(' :: 'B' :: "login:".toList) = "Blogin:".toList ∧
      ¬ ∀ line : List (Piece (isKept · = true)), stripAnsi (chars line) = text line := by
  refine ⟨by decide, fun h => ?_⟩
  have hline := h [.sequence (.designation '(' [] 'B' (by decide) (fun _ h => absurd h List.not_mem_nil) (by decide))]
  rw [stripAnsi_chars] at hline
  cases hline

end LineLog

end Serialcap

end Paniolo
