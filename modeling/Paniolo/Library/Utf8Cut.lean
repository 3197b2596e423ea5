import Paniolo.Library.Utf8

/-!
# Cutting a byte string that is decoded

Decoding the two parts of a byte string gives what decoding the whole gives,
unless the cut goes through a character: the first part ends with the beginning
of one, and the second goes on with it. Then there are more characters than
before, since every byte left over is replaced.

`Opens l cs t` splits off the beginning `t` of a character that `l` ends with;
`utf8Error` is the validator's own account of the first ill-formed sequence.
-/

namespace Paniolo

namespace Utf8

/-! ### Heads -/

/-- The first byte alone decides how the head is read. -/
theorem head_kinds (b : UInt8) :
    head b = (fun _ => .char (Char.ofNat b.toNat) 1) ∨ head b = (fun _ => .invalid 1) ∨
      head b = headTwo b ∨ head b = headThree b ∨ head b = headFour b := by
  by_cases h1 : b < 0x80
  · left
    funext l
    rw [head, if_pos h1]
  · right
    by_cases h2 : 0xC2 ≤ b ∧ b ≤ 0xDF
    · right
      left
      funext l
      rw [head, if_neg h1, if_pos h2]
    · by_cases h3 : 0xE0 ≤ b ∧ b ≤ 0xEF
      · right
        right
        left
        funext l
        rw [head, if_neg h1, if_neg h2, if_pos h3]
      · by_cases h4 : 0xF0 ≤ b ∧ b ≤ 0xF4
        · right
          right
          right
          funext l
          rw [head, if_neg h1, if_neg h2, if_neg h3, if_pos h4]
        · left
          funext l
          rw [head, if_neg h1, if_neg h2, if_neg h3, if_neg h4]

/-- A head that does not need more input stays the same with more. -/
theorem head_append {b : UInt8} {l : List UInt8} (h : head b l ≠ .cut) (r : List UInt8) :
    head b (l ++ r) = head b l := by
  rcases head_kinds b with hb | hb | hb | hb | hb
  · rw [hb]
  · rw [hb]
  · rw [hb] at h ⊢
    cases l with
    | nil => exact absurd rfl h
    | cons c l => rfl
  · rw [hb] at h ⊢
    rcases l with _ | ⟨c, _ | ⟨d, l⟩⟩
    · exact absurd rfl h
    · simp only [headThree, List.cons_append] at h ⊢
      split
      · rename_i hc
        exact absurd (if_pos hc) h
      · rfl
    · rfl
  · rw [hb] at h ⊢
    rcases l with _ | ⟨c, _ | ⟨d, _ | ⟨e, l⟩⟩⟩
    · exact absurd rfl h
    · simp only [headFour, List.cons_append] at h ⊢
      split
      · rename_i hc
        exact absurd (if_pos hc) h
      · rfl
    · simp only [headFour, List.cons_append] at h ⊢
      split
      · rename_i hc
        rw [if_pos hc] at h
        split
        · rename_i hd
          exact absurd (if_pos hd) h
        · rfl
      · rfl
    · rfl

/-- A character takes its own bytes and looks at no others. -/
theorem exists_of_head_eq_char {b : UInt8} {l : List UInt8} {c : Char} {n : Nat}
    (h : head b l = .char c n) :
    ∃ t r, l = t ++ r ∧ t.length + 1 = n ∧ ∀ x, head b (t ++ x) = .char c n := by
  rcases head_kinds b with hb | hb | hb | hb | hb
  · rw [hb] at h
    obtain ⟨rfl, rfl⟩ := Head.char.inj h
    exact ⟨[], l, rfl, rfl, fun x => by rw [hb]⟩
  · rw [hb] at h
    cases h
  · rw [hb] at h ⊢
    rcases l with _ | ⟨d, l⟩
    · cases h
    · rw [headTwo] at h
      split at h
      · rename_i hd
        obtain ⟨rfl, rfl⟩ := Head.char.inj h
        exact ⟨[d], l, rfl, rfl, fun x => if_pos hd⟩
      · cases h
  · rw [hb] at h ⊢
    rcases l with _ | ⟨d, _ | ⟨e, l⟩⟩
    · cases h
    · simp only [headThree] at h
      split at h <;> cases h
    · simp only [headThree] at h
      split at h
      · rename_i hd
        split at h
        · rename_i he
          obtain ⟨rfl, rfl⟩ := Head.char.inj h
          refine ⟨[d, e], l, rfl, rfl, fun x => ?_⟩
          simp only [headThree, List.cons_append, hd, he, if_true]
        · cases h
      · cases h
  · rw [hb] at h ⊢
    rcases l with _ | ⟨d, _ | ⟨e, _ | ⟨f, l⟩⟩⟩
    · cases h
    · simp only [headFour] at h
      split at h <;> cases h
    · simp only [headFour] at h
      split at h
      · split at h <;> cases h
      · cases h
    · simp only [headFour] at h
      split at h
      · rename_i hd
        split at h
        · rename_i he
          split at h
          · rename_i hf
            obtain ⟨rfl, rfl⟩ := Head.char.inj h
            refine ⟨[d, e, f], l, rfl, rfl, fun x => ?_⟩
            simp only [headFour, List.cons_append, hd, he, hf, if_true]
          · cases h
        · cases h
      · cases h

theorem le_of_head_eq_invalid {b : UInt8} {l : List UInt8} {n : Nat} (h : head b l = .invalid n) :
    n ≤ l.length + 1 := by
  rcases head_kinds b with hb | hb | hb | hb | hb
  · rw [hb] at h
    cases h
  · rw [hb] at h
    obtain rfl := Head.invalid.inj h
    omega
  · rw [hb] at h
    rcases l with _ | ⟨d, l⟩
    · cases h
    · rw [headTwo] at h
      split at h
      · cases h
      · obtain rfl := Head.invalid.inj h
        omega
  · rw [hb] at h
    rcases l with _ | ⟨d, _ | ⟨e, l⟩⟩
    · cases h
    · simp only [headThree] at h
      split at h
      · cases h
      · obtain rfl := Head.invalid.inj h
        omega
    · simp only [headThree] at h
      split at h
      · split at h
        · cases h
        · obtain rfl := Head.invalid.inj h
          simp only [List.length_cons]
          omega
      · obtain rfl := Head.invalid.inj h
        omega
  · rw [hb] at h
    rcases l with _ | ⟨d, _ | ⟨e, _ | ⟨f, l⟩⟩⟩
    · cases h
    · simp only [headFour] at h
      split at h
      · cases h
      · obtain rfl := Head.invalid.inj h
        omega
    · simp only [headFour] at h
      split at h
      · split at h
        · cases h
        · obtain rfl := Head.invalid.inj h
          simp only [List.length_cons]
          omega
      · obtain rfl := Head.invalid.inj h
        omega
    · simp only [headFour] at h
      split at h
      · split at h
        · split at h
          · cases h
          · obtain rfl := Head.invalid.inj h
            simp only [List.length_cons]
            omega
        · obtain rfl := Head.invalid.inj h
          simp only [List.length_cons]
          omega
      · obtain rfl := Head.invalid.inj h
        omega

theorem isContinuation_of_secondOfThree {b c : UInt8} (h : secondOfThree b c = true) :
    isContinuation c = true := by
  rw [secondOfThree] at h
  split at h
  · simp only [isContinuation, Bool.and_eq_true, decide_eq_true_eq] at h ⊢
    exact ⟨UInt8.le_trans (by decide) h.1, h.2⟩
  · split at h
    · simp only [isContinuation, Bool.and_eq_true, decide_eq_true_eq] at h ⊢
      exact ⟨h.1, UInt8.le_trans h.2 (by decide)⟩
    · exact h

theorem isContinuation_of_secondOfFour {b c : UInt8} (h : secondOfFour b c = true) :
    isContinuation c = true := by
  rw [secondOfFour] at h
  split at h
  · simp only [isContinuation, Bool.and_eq_true, decide_eq_true_eq] at h ⊢
    exact ⟨UInt8.le_trans (by decide) h.1, h.2⟩
  · split at h
    · simp only [isContinuation, Bool.and_eq_true, decide_eq_true_eq] at h ⊢
      exact ⟨h.1, UInt8.le_trans h.2 (by decide)⟩
    · exact h

/-- A continuation byte starts nothing. -/
theorem head_of_isContinuation {c : UInt8} (h : isContinuation c = true) (l : List UInt8) :
    head c l = .invalid 1 := by
  simp only [isContinuation, Bool.and_eq_true, decide_eq_true_eq, UInt8.le_iff_toNat_le] at h
  have h1 : ¬c < 0x80 := by
    rw [UInt8.lt_iff_toNat_lt]
    exact Nat.not_lt.mpr h.1
  have hle : ∀ d : UInt8, 0xBF < d.toNat → ¬d ≤ c := by
    intro d hd hdc
    have h2 : c.toNat ≤ 0xBF := h.2
    have := UInt8.le_iff_toNat_le.mp hdc
    omega
  rw [head, if_neg h1, if_neg fun h => hle 0xC2 (by decide) h.1,
    if_neg fun h => hle 0xE0 (by decide) h.1, if_neg fun h => hle 0xF0 (by decide) h.1]

/-- What the next byte does to a character that was cut short: it ends it
there, or it belongs to it. -/
inductive Extends (b : UInt8) (t : List UInt8) (c : UInt8) : Prop where
  | ends (h : head b (t ++ [c]) = .invalid (t.length + 1))
  | still (h : head b (t ++ [c]) = .cut) (hc : isContinuation c = true)
  | char (x : Char) (h : head b (t ++ [c]) = .char x (t.length + 2)) (hc : isContinuation c = true)

theorem extends_of_cut {b : UInt8} {t : List UInt8} (h : head b t = .cut) (c : UInt8) :
    Extends b t c := by
  rcases head_kinds b with hb | hb | hb | hb | hb
  · rw [hb] at h
    cases h
  · rw [hb] at h
    cases h
  · rw [hb] at h
    rcases t with _ | ⟨d, t⟩
    · by_cases hc : isContinuation c = true
      · exact .char _ ((congrFun hb _).trans (if_pos hc)) hc
      · exact .ends ((congrFun hb _).trans (if_neg hc))
    · rw [headTwo] at h
      split at h <;> cases h
  · rw [hb] at h
    rcases t with _ | ⟨d, _ | ⟨e, t⟩⟩
    · by_cases hc : secondOfThree b c = true
      · exact .still ((congrFun hb _).trans (if_pos hc)) (isContinuation_of_secondOfThree hc)
      · exact .ends ((congrFun hb _).trans (if_neg hc))
    · simp only [headThree] at h
      split at h
      · rename_i hd
        by_cases hc : isContinuation c = true
        · exact .char _ ((congrFun hb _).trans ((if_pos hd).trans (if_pos hc))) hc
        · exact .ends ((congrFun hb _).trans ((if_pos hd).trans (if_neg hc)))
      · cases h
    · simp only [headThree] at h
      split at h
      · split at h <;> cases h
      · cases h
  · rw [hb] at h
    rcases t with _ | ⟨d, _ | ⟨e, _ | ⟨f, t⟩⟩⟩
    · by_cases hc : secondOfFour b c = true
      · exact .still ((congrFun hb _).trans (if_pos hc)) (isContinuation_of_secondOfFour hc)
      · exact .ends ((congrFun hb _).trans (if_neg hc))
    · simp only [headFour] at h
      split at h
      · rename_i hd
        by_cases hc : isContinuation c = true
        · exact .still ((congrFun hb _).trans ((if_pos hd).trans (if_pos hc))) hc
        · exact .ends ((congrFun hb _).trans ((if_pos hd).trans (if_neg hc)))
      · cases h
    · simp only [headFour] at h
      split at h
      · rename_i hd
        split at h
        · rename_i he
          by_cases hc : isContinuation c = true
          · exact .char _
              ((congrFun hb _).trans ((if_pos hd).trans ((if_pos he).trans (if_pos hc)))) hc
          · exact .ends
              ((congrFun hb _).trans ((if_pos hd).trans ((if_pos he).trans (if_neg hc))))
        · cases h
      · cases h
    · simp only [headFour] at h
      split at h
      · split at h
        · split at h <;> cases h
        · cases h
      · cases h

/-! ### Decoding -/

theorem decode_of_char {b : UInt8} {l : List UInt8} {c : Char} {n : Nat}
    (h : head b l = .char c n) : decode (b :: l) = c :: decode ((b :: l).drop n) := by
  have hrest := lossyLoop_drop b l
  rw [h, Head.width] at hrest
  rw [decode, List.length_cons, lossyLoop, h]
  dsimp only
  rw [hrest]

theorem decode_of_invalid {b : UInt8} {l : List UInt8} {n : Nat} (h : head b l = .invalid n) :
    decode (b :: l) = replacement :: decode ((b :: l).drop n) := by
  have hrest := lossyLoop_drop b l
  rw [h, Head.width] at hrest
  rw [decode, List.length_cons, lossyLoop, h]
  dsimp only
  rw [hrest]

theorem decode_of_cut {b : UInt8} {l : List UInt8} (h : head b l = .cut) :
    decode (b :: l) = [replacement] := by
  rw [decode, List.length_cons, lossyLoop, h]

theorem decode_of_isContinuation {c : UInt8} (h : isContinuation c = true) (l : List UInt8) :
    decode (c :: l) = replacement :: decode l :=
  decode_of_invalid (head_of_isContinuation h l)

theorem width_le {b : UInt8} {l : List UInt8} (h : head b l ≠ .cut) :
    (head b l).width ≤ (b :: l).length := by
  cases hh : head b l with
  | char c n =>
      obtain ⟨t, r, rfl, hn, -⟩ := exists_of_head_eq_char hh
      rw [Head.width, List.length_cons, List.length_append]
      omega
  | invalid n => exact le_of_head_eq_invalid hh
  | cut => exact absurd hh h

/-- A head that is whole stands for one character, and the rest is decoded by itself. -/
theorem exists_decode_of_ne_cut {b : UInt8} {l : List UInt8} (h : head b l ≠ .cut) :
    ∃ c, ∀ r, decode (b :: l ++ r) = c :: decode ((b :: l).drop (head b l).width ++ r) := by
  have hdrop : ∀ r, (b :: l ++ r).drop (head b l).width = (b :: l).drop (head b l).width ++ r :=
    fun r => List.drop_append_of_le_length (width_le h)
  cases hh : head b l with
  | char c n =>
      refine ⟨c, fun r => ?_⟩
      have happ := head_append h r
      rw [hh] at happ
      have := hdrop r
      rw [hh] at this
      rw [← this]
      exact decode_of_char happ
  | invalid n =>
      refine ⟨replacement, fun r => ?_⟩
      have happ := head_append h r
      rw [hh] at happ
      have := hdrop r
      rw [hh] at this
      rw [← this]
      exact decode_of_invalid happ
  | cut => exact absurd hh h

/-- The beginning of a character that the end of the input cuts short. -/
def IsCut : List UInt8 → Prop
  | [] => False
  | b :: t => head b t = .cut

/-- The byte string `l` decodes to `cs`, and then comes `t`, which is empty or
the beginning of a character. -/
inductive Opens : List UInt8 → List Char → List UInt8 → Prop where
  | nil : Opens [] [] []
  | cut {b : UInt8} {t : List UInt8} (h : head b t = .cut) : Opens (b :: t) [] (b :: t)
  | cons {b : UInt8} {l : List UInt8} {c : Char} {cs : List Char} {t : List UInt8}
      (h : head b l ≠ .cut)
      (hc : ∀ r, decode (b :: l ++ r) = c :: decode ((b :: l).drop (head b l).width ++ r))
      (ho : Opens ((b :: l).drop (head b l).width) cs t) : Opens (b :: l) (c :: cs) t

theorem length_drop_width_lt (b : UInt8) (l : List UInt8) :
    ((b :: l).drop (head b l).width).length < (b :: l).length := by
  have := one_le_width b l
  rw [List.length_drop, List.length_cons]
  omega

/-- The loop of `openTail`; each round consumes at least one byte. -/
def openTailLoop : Nat → List UInt8 → List UInt8
  | 0, _ => []
  | _ + 1, [] => []
  | fuel + 1, b :: l =>
      if head b l = .cut then b :: l else openTailLoop fuel ((b :: l).drop (head b l).width)

/-- The beginning of a character that `l` ends with, if there is one. -/
def openTail (l : List UInt8) : List UInt8 := openTailLoop l.length l

theorem exists_opens_openTailLoop (fuel : Nat) (l : List UInt8) (h : l.length ≤ fuel) :
    ∃ cs, Opens l cs (openTailLoop fuel l) := by
  induction fuel generalizing l with
  | zero =>
      obtain rfl := List.length_eq_zero_iff.mp (Nat.le_zero.mp h)
      exact ⟨[], .nil⟩
  | succ fuel ih =>
      cases l with
      | nil => exact ⟨[], .nil⟩
      | cons b l =>
          rw [openTailLoop]
          split
          · rename_i hcut
            exact ⟨[], .cut hcut⟩
          · rename_i hcut
            have hlt := length_drop_width_lt b l
            obtain ⟨cs, ho⟩ := ih _ (Nat.le_of_lt_succ (Nat.lt_of_lt_of_le hlt h))
            obtain ⟨c, hc⟩ := exists_decode_of_ne_cut hcut
            exact ⟨c :: cs, .cons hcut hc ho⟩

theorem exists_opens (l : List UInt8) : ∃ cs, Opens l cs (openTail l) :=
  exists_opens_openTailLoop l.length l (Nat.le_refl _)

namespace Opens

variable {l t : List UInt8} {cs : List Char}

theorem decode_append (h : Opens l cs t) (r : List UInt8) :
    decode (l ++ r) = cs ++ decode (t ++ r) := by
  induction h with
  | nil => rfl
  | cut h => rfl
  | cons h hc ho ih => rw [hc, ih, List.cons_append]

theorem decode_eq (h : Opens l cs t) : decode l = cs ++ decode t := by
  have := h.decode_append []
  rwa [List.append_nil, List.append_nil] at this

theorem eq_nil_or_isCut (h : Opens l cs t) : t = [] ∨ IsCut t := by
  induction h with
  | nil => exact Or.inl rfl
  | cut h => exact Or.inr h
  | cons h hc ho ih => exact ih

end Opens

/-- The byte `c` goes on with the beginning `t` of a character. -/
def goesOn (t : List UInt8) (c : UInt8) : Bool :=
  match t with
  | [] => false
  | b :: t => head b (t ++ [c]) ≠ .invalid (t.length + 1)

theorem head_append_cons {b c : UInt8} {t r : List UInt8} (h : head b (t ++ [c]) ≠ .cut) :
    head b (t ++ c :: r) = head b (t ++ [c]) := by
  have := head_append h r
  rwa [List.append_assoc] at this

theorem drop_cut_append (b : UInt8) (t r : List UInt8) :
    (b :: (t ++ r)).drop (t.length + 1) = r := by
  rw [List.drop_succ_cons, List.drop_left]

/-- A byte that does not go on with a character leaves the beginning of it to be
replaced, and is decoded by itself. -/
theorem decode_cut_append_of_ends {b c : UInt8} {t r : List UInt8}
    (h : head b (t ++ [c]) = .invalid (t.length + 1)) :
    decode (b :: t ++ c :: r) = replacement :: decode (c :: r) := by
  have hhead : head b (t ++ c :: r) = .invalid (t.length + 1) := by
    rw [head_append_cons (by rw [h]; exact Head.noConfusion), h]
  rw [List.cons_append, decode_of_invalid hhead, drop_cut_append]

/-- A byte that completes a character. -/
theorem decode_cut_append_of_char {b c : UInt8} {t r : List UInt8} {x : Char}
    (h : head b (t ++ [c]) = .char x (t.length + 2)) :
    decode (b :: t ++ c :: r) = x :: decode r := by
  have hhead : head b (t ++ c :: r) = .char x (t.length + 2) := by
    rw [head_append_cons (by rw [h]; exact Head.noConfusion), h]
  have hdrop : (b :: (t ++ c :: r)).drop (t.length + 2) = r := by
    rw [← List.drop_drop (i := 1), drop_cut_append, List.drop_succ_cons, List.drop_zero]
  rw [List.cons_append, decode_of_char hhead, hdrop]

/-- The beginning of a character costs at most the one replacement that it
becomes when it is left alone. -/
theorem length_decode_cut_append_le {b : UInt8} {t : List UInt8} (h : head b t = .cut)
    (r : List UInt8) : (decode (b :: t ++ r)).length ≤ (decode r).length + 1 := by
  -- One byte at a time: as long as it goes on, it would be a replacement of its own.
  induction r generalizing t with
  | nil =>
      rw [List.append_nil, decode_of_cut h]
      exact Nat.le_refl 1
  | cons c r ih =>
      rcases extends_of_cut h c with hc | ⟨hcut, hc⟩ | ⟨x, hx, hc⟩
      · rw [decode_cut_append_of_ends hc]
        exact Nat.le_refl _
      · have := ih hcut
        rw [← List.cons_append, List.append_assoc, List.singleton_append] at this
        rw [decode_of_isContinuation hc, List.length_cons]
        omega
      · rw [decode_cut_append_of_char hx, decode_of_isContinuation hc, List.length_cons,
          List.length_cons]
        omega

/-- With a byte that goes on with it, it costs less. -/
theorem length_decode_cut_append_lt {b c : UInt8} {t : List UInt8} (h : head b t = .cut)
    (hc : head b (t ++ [c]) ≠ .invalid (t.length + 1)) (r : List UInt8) :
    (decode (b :: t ++ c :: r)).length < (decode (c :: r)).length + 1 := by
  rcases extends_of_cut h c with hends | ⟨hcut, hc⟩ | ⟨x, hx, hc⟩
  · exact absurd hends hc
  · have := length_decode_cut_append_le hcut r
    rw [← List.cons_append, List.append_assoc, List.singleton_append] at this
    rw [decode_of_isContinuation hc, List.length_cons]
    omega
  · rw [decode_cut_append_of_char hx, decode_of_isContinuation hc, List.length_cons,
      List.length_cons]
    omega

/-! ### The two sides of a cut -/

/-- Where the second part does not go on with a character of the first, the two
parts decode to what the whole decodes to. -/
theorem decode_append_of_not_goesOn {l r : List UInt8}
    (h : ∀ c r', r = c :: r' → goesOn (openTail l) c = false) :
    decode (l ++ r) = decode l ++ decode r := by
  obtain ⟨cs, ho⟩ := exists_opens l
  rw [ho.decode_append, ho.decode_eq, List.append_assoc]
  congr 1
  rcases r with _ | ⟨c, r⟩
  · rw [List.append_nil]
    exact (List.append_nil _).symm
  · have hc := h c r rfl
    rcases ho.eq_nil_or_isCut with hnil | hcut
    · rw [hnil]
      rfl
    · cases ht : openTail l with
      | nil => rfl
      | cons b t =>
          rw [ht] at hcut hc
          have hends : head b (t ++ [c]) = .invalid (t.length + 1) := by
            rw [goesOn, decide_eq_false_iff_not] at hc
            exact Decidable.not_not.mp hc
          rw [decode_cut_append_of_ends hends, decode_of_cut hcut]
          rfl

/-- Where it does, there are more characters than in the whole. -/
theorem length_decode_append_lt {l r : List UInt8} {c : UInt8}
    (h : goesOn (openTail l) c = true) :
    (decode (l ++ c :: r)).length < (decode l ++ decode (c :: r)).length := by
  obtain ⟨cs, ho⟩ := exists_opens l
  rw [ho.decode_append, ho.decode_eq, List.append_assoc, List.length_append, List.length_append]
  rcases ho.eq_nil_or_isCut with hnil | hcut
  · rw [hnil] at h
    cases h
  · cases ht : openTail l with
    | nil =>
        rw [ht] at h
        cases h
    | cons b t =>
        rw [ht] at hcut h
        rw [goesOn, decide_eq_true_eq] at h
        have := length_decode_cut_append_lt hcut h r
        rw [decode_of_cut hcut, List.length_append, List.length_singleton]
        omega

/-! ### The validator -/

/-- `std::str::Utf8Error`: where the first ill-formed sequence starts and how
long it is, which is unknown when the end of the input cuts it short. -/
structure Utf8Error where
  validUpTo : Nat
  errorLen : Option Nat
deriving DecidableEq, Repr

/-- The loop of `utf8Error`, at offset `i`. -/
def utf8ErrorLoop : Nat → Nat → List UInt8 → Option Utf8Error
  | 0, _, _ => none
  | _ + 1, _, [] => none
  | fuel + 1, i, b :: l =>
      match head b l with
      | .char _ n => utf8ErrorLoop fuel (i + n) ((b :: l).drop n)
      | .invalid n => some ⟨i, some n⟩
      | .cut => some ⟨i, none⟩

/-- The error of `std::str::from_utf8`. -/
def utf8Error (l : List UInt8) : Option Utf8Error := utf8ErrorLoop l.length 0 l

/-- An error without a length is the beginning of a character at the end, and
what comes before it is decoded by itself. -/
theorem exists_of_utf8ErrorLoop {fuel i v : Nat} {l : List UInt8}
    (h : utf8ErrorLoop fuel i l = some ⟨v, none⟩) :
    ∃ p t, l = p ++ t ∧ v = i + p.length ∧ IsCut t ∧
      ∀ r, decode (p ++ r) = decode p ++ decode r := by
  induction fuel generalizing i l with
  | zero => cases h
  | succ fuel ih =>
      cases l with
      | nil => cases h
      | cons b l =>
          rw [utf8ErrorLoop] at h
          cases hh : head b l with
          | char c n =>
              rw [hh] at h
              obtain ⟨s, r, rfl, rfl, hs⟩ := exists_of_head_eq_char hh
              dsimp only at h
              rw [drop_cut_append] at h
              obtain ⟨p, t, rfl, rfl, ht, hp⟩ := ih h
              have hdecode : ∀ x, decode (b :: s ++ x) = c :: decode x := by
                intro x
                rw [List.cons_append, decode_of_char (hs x), drop_cut_append]
              refine ⟨b :: s ++ p, t, ?_, ?_, ht, fun x => ?_⟩
              · rw [List.append_assoc, List.cons_append]
              · rw [List.length_append, List.length_cons]
                omega
              · rw [List.append_assoc, hdecode, hp, hdecode]
                rfl
          | invalid n =>
              rw [hh] at h
              cases h
          | cut =>
              rw [hh] at h
              obtain ⟨rfl, -⟩ := Utf8Error.mk.inj (Option.some.inj h)
              exact ⟨[], b :: l, rfl, rfl, hh, fun x => rfl⟩

/-- The beginning of a character is shorter than the longest character. -/
theorem length_lt_of_isCut {t : List UInt8} (h : IsCut t) : t.length < 4 := by
  cases t with
  | nil => exact h.elim
  | cons b t =>
      change head b t = .cut at h
      rcases head_kinds b with hb | hb | hb | hb | hb
      · rw [hb] at h
        cases h
      · rw [hb] at h
        cases h
      · rw [hb] at h
        rcases t with _ | ⟨d, t⟩
        · exact Nat.lt_of_sub_eq_succ rfl
        · rw [headTwo] at h
          split at h <;> cases h
      · rw [hb] at h
        rcases t with _ | ⟨d, _ | ⟨e, t⟩⟩
        · exact Nat.lt_of_sub_eq_succ rfl
        · exact Nat.lt_of_sub_eq_succ rfl
        · simp only [headThree] at h
          split at h
          · split at h <;> cases h
          · cases h
      · rw [hb] at h
        rcases t with _ | ⟨d, _ | ⟨e, _ | ⟨f, t⟩⟩⟩
        · exact Nat.lt_of_sub_eq_succ rfl
        · exact Nat.lt_of_sub_eq_succ rfl
        · exact Nat.lt_of_sub_eq_succ rfl
        · simp only [headFour] at h
          split at h
          · split at h
            · split at h <;> cases h
            · cases h
          · cases h

/-- ASCII is well-formed. -/
theorem utf8Error_eq_none {l : List UInt8} (h : ∀ b ∈ l, b < 0x80) : utf8Error l = none := by
  have hloop : ∀ (l : List UInt8), (∀ b ∈ l, b < 0x80) → ∀ fuel i,
      utf8ErrorLoop fuel i l = none := by
    intro l
    induction l with
    | nil =>
        intro _ fuel i
        cases fuel <;> rfl
    | cons b l ih =>
        intro hl fuel i
        cases fuel with
        | zero => rfl
        | succ fuel =>
            rw [utf8ErrorLoop, head, if_pos (hl b List.mem_cons_self)]
            exact ih (fun c hc => hl c (List.mem_cons_of_mem b hc)) fuel (i + 1)
  exact hloop l h l.length 0

end Utf8

end Paniolo
