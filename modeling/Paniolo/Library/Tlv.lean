import Mathlib.Data.List.Induction

/-!
# Options by tag, length and value

The option lists of BOOTP: an option is its tag, the length of its value in one
byte, and the value; a pad byte stands for nothing, and an end byte closes the
list. `read` takes a list apart; what is written is read back, whatever pads
stand between the options.
-/

namespace Paniolo

namespace Tlv

def PAD : UInt8 := 0

def END : UInt8 := 255

/-- An option that can be written. -/
structure Opt where
  tag : UInt8
  value : List UInt8
  tag_ne_pad : tag ≠ PAD
  tag_ne_end : tag ≠ END
  length_le : value.length ≤ 255

namespace Opt

def encode (o : Opt) : List UInt8 := o.tag :: UInt8.ofNat o.value.length :: o.value

/-- The option as a reader sees it. -/
def pair (o : Opt) : UInt8 × List UInt8 := (o.tag, o.value)

end Opt

/-- The options up to the end byte, or to where the list breaks off, and what follows the end
byte. Every round consumes a byte. -/
def readLoop : Nat → List UInt8 → List (UInt8 × List UInt8) × Option (List UInt8)
  | 0, _ => ([], none)
  | _ + 1, [] => ([], none)
  | fuel + 1, tag :: rest =>
      if tag = END then ([], some rest)
      else if tag = PAD then readLoop fuel rest
      else
        match rest with
        | [] => ([], none)
        | len :: rest =>
            if rest.length < len.toNat then ([], none)
            else
              ((tag, rest.take len.toNat) :: (readLoop fuel (rest.drop len.toNat)).1,
                (readLoop fuel (rest.drop len.toNat)).2)

def read (l : List UInt8) : List (UInt8 × List UInt8) × Option (List UInt8) :=
  readLoop l.length l

theorem readLoop_eq_read {fuel : Nat} {l : List UInt8} (h : l.length ≤ fuel) :
    readLoop fuel l = read l := by
  have hmore : ∀ (n m : Nat) (l : List UInt8), l.length ≤ n → l.length ≤ m →
      readLoop n l = readLoop m l := by
    intro n
    induction n with
    | zero =>
        intro m l hn _
        rw [List.length_eq_zero_iff.mp (Nat.le_zero.mp hn)]
        cases m <;> rfl
    | succ n ih =>
        intro m l hn hm
        cases l with
        | nil => cases m <;> rfl
        | cons tag rest =>
            cases m with
            | zero => exact absurd hm (Nat.not_succ_le_zero _)
            | succ m =>
                have hn' : rest.length ≤ n := Nat.le_of_succ_le_succ hn
                have hm' : rest.length ≤ m := Nat.le_of_succ_le_succ hm
                have hrest : readLoop n rest = readLoop m rest := ih m rest hn' hm'
                cases rest with
                | nil => rw [readLoop, readLoop, hrest]
                | cons len rest =>
                    have hdrop : (rest.drop len.toNat).length ≤ rest.length := by
                      rw [List.length_drop]
                      exact Nat.sub_le _ _
                    rw [List.length_cons] at hn' hm'
                    rw [readLoop, readLoop, hrest, ih m (rest.drop len.toNat) (by omega) (by omega)]
  exact hmore fuel l.length l h (Nat.le_refl _)

theorem read_nil : read [] = ([], none) := rfl

theorem read_end (l : List UInt8) : read (END :: l) = ([], some l) := by
  cases l <;> rfl

theorem read_pad (l : List UInt8) : read (PAD :: l) = read l := by
  cases l <;> rfl

theorem read_encode (o : Opt) (l : List UInt8) :
    read (o.encode ++ l) = (o.pair :: (read l).1, (read l).2) := by
  have hlen : (UInt8.ofNat o.value.length).toNat = o.value.length := by
    have h := o.length_le
    rw [UInt8.toNat_ofNat']
    omega
  have hfuel : readLoop (UInt8.ofNat o.value.length :: (o.value ++ l)).length l = read l := by
    apply readLoop_eq_read
    rw [List.length_cons, List.length_append]
    omega
  have hlong : ¬(o.value ++ l).length < o.value.length := by
    rw [List.length_append]
    omega
  rw [Opt.encode, List.cons_append, List.cons_append, read, List.length_cons, readLoop,
    if_neg o.tag_ne_end, if_neg o.tag_ne_pad]
  simp only [hlen]
  rw [if_neg hlong, List.take_left, List.drop_left, hfuel]
  rfl

/-- What may stand in a list before its end. -/
inductive Item where
  | pad
  | opt (o : Opt)

namespace Item

def encode : Item → List UInt8
  | .pad => [PAD]
  | .opt o => o.encode

def pair? : Item → Option (UInt8 × List UInt8)
  | .pad => none
  | .opt o => some o.pair

end Item

theorem read_items (items : List Item) (l : List UInt8) :
    read (items.flatMap Item.encode ++ l) =
      (items.filterMap Item.pair? ++ (read l).1, (read l).2) := by
  induction items with
  | nil => rfl
  | cons item items ih =>
      rw [List.flatMap_cons, List.append_assoc]
      cases item with
      | pad =>
          rw [Item.encode, List.singleton_append, read_pad, ih]
          rfl
      | opt o =>
          rw [Item.encode, read_encode, ih]
          rfl

/-- How a list ends: it is cut off, or there is an end byte and then anything. -/
inductive Ending where
  | cut
  | marked (junk : List UInt8)

namespace Ending

def encode : Ending → List UInt8
  | .cut => []
  | .marked junk => END :: junk

def junk? : Ending → Option (List UInt8)
  | .cut => none
  | .marked junk => some junk

theorem read_encode (e : Ending) : read e.encode = ([], e.junk?) := by
  cases e with
  | cut => exact read_nil
  | marked junk => exact read_end junk

end Ending

/-- A list of options is read back. -/
theorem read_items_ending (items : List Item) (e : Ending) :
    read (items.flatMap Item.encode ++ e.encode) = (items.filterMap Item.pair?, e.junk?) := by
  rw [read_items, e.read_encode, List.append_nil]

/-! ### The last option of a kind -/

/-- The value of the last option with the tag whose length the rule allows. -/
def lastValue (tag : UInt8) (rule : Nat → Bool) (opts : List (UInt8 × List UInt8)) :
    Option (List UInt8) :=
  ((opts.filter fun o => o.1 == tag && rule o.2.length).getLast?).map Prod.snd

theorem lastValue_concat (tag : UInt8) (rule : Nat → Bool) (opts : List (UInt8 × List UInt8))
    (o : UInt8 × List UInt8) :
    lastValue tag rule (opts ++ [o]) =
      if o.1 == tag && rule o.2.length then some o.2 else lastValue tag rule opts := by
  rw [lastValue, List.filter_append]
  split
  · next h =>
      rw [List.filter_cons, if_pos h, List.filter_nil, List.getLast?_concat]
      rfl
  · next h =>
      rw [List.filter_cons, if_neg h, List.filter_nil, List.append_nil]
      rfl

theorem lastValue_concat_of_ne {tag tag' : UInt8} (h : tag' ≠ tag) (rule : Nat → Bool)
    (opts : List (UInt8 × List UInt8)) (value : List UInt8) :
    lastValue tag rule (opts ++ [(tag', value)]) = lastValue tag rule opts := by
  rw [lastValue_concat, beq_false_of_ne h, Bool.false_and]
  exact if_neg Bool.false_ne_true

theorem lastValue_concat_self (tag : UInt8) (rule : Nat → Bool)
    (opts : List (UInt8 × List UInt8)) (value : List UInt8) :
    lastValue tag rule (opts ++ [(tag, value)]) =
      if rule value.length then some value else lastValue tag rule opts := by
  rw [lastValue_concat, beq_self_eq_true, Bool.true_and]

end Tlv

end Paniolo
