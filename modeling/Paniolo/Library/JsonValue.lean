import Paniolo.Library.JsonText
import Mathlib.Algebra.Group.Nat.Defs

/-!
# JSON values

The tree of a JSON text, the accessors a program uses to look into one whose
shape it does not know, and the compact text it is written as. Of that text
only the length matters here: `encodedLen_obj` and `encodedLen_arr_concat`
give it in terms of the parts.
-/

namespace Paniolo

/-- A number is an unsigned integer, a negative one by its magnitude, or anything else by its
text. -/
inductive JsonNumber where
  | u64 (n : UInt64)
  | neg (magnitude : UInt64)
  | float (text : List Char)

inductive JsonValue where
  | null
  | bool (b : Bool)
  | num (n : JsonNumber)
  | str (s : String)
  | arr (items : List JsonValue)
  | obj (fields : List (String × JsonValue))

namespace JsonValue

/-- An unsigned integer of the program as a value. -/
def nat (n : Nat) : JsonValue := .num (.u64 (UInt64.ofNat n))

/-- Every absent integer is `null`. -/
def optNat (n : Option Nat) : JsonValue := n.elim .null nat

/-! ### Looking into a value -/

def field? (key : String) : JsonValue → Option JsonValue
  | .obj fields => fields.lookup key
  | _ => none

/-- Indexing by a key: what is not there is `null`. -/
def get (v : JsonValue) (key : String) : JsonValue := (v.field? key).getD .null

def asU64 : JsonValue → Option UInt64
  | .num (.u64 n) => some n
  | _ => none

def asStr : JsonValue → Option String
  | .str s => some s
  | _ => none

def asBool : JsonValue → Option Bool
  | .bool b => some b
  | _ => none

def asArray : JsonValue → Option (List JsonValue)
  | .arr items => some items
  | _ => none

def isNull : JsonValue → Bool
  | .null => true
  | _ => false

/-- `v == b`. -/
def isBool (v : JsonValue) (b : Bool) : Bool :=
  match v with
  | .bool a => a == b
  | _ => false

/-! ### The text -/

def hexDigit (n : Nat) : Char := if n < 10 then Char.ofNat (48 + n) else Char.ofNat (87 + n)

def escape (ch : Char) : List Char :=
  if ch = '\"' then ['\\', '\"']
  else if ch = '\\' then ['\\', '\\']
  else if ch.toNat = 8 then ['\\', 'b']
  else if ch.toNat = 9 then ['\\', 't']
  else if ch.toNat = 10 then ['\\', 'n']
  else if ch.toNat = 12 then ['\\', 'f']
  else if ch.toNat = 13 then ['\\', 'r']
  else if ch.toNat < 32 then
    ['\\', 'u', '0', '0', hexDigit (ch.toNat / 16), hexDigit (ch.toNat % 16)]
  else [ch]

def quote (s : String) : List Char := '\"' :: (s.toList.flatMap escape ++ ['\"'])

def showNumber : JsonNumber → List Char
  | .u64 n => JsonText.showNat n.toNat
  | .neg n => '-' :: JsonText.showNat n.toNat
  | .float text => text

mutual

def encode : JsonValue → List Char
  | .null => "null".toList
  | .bool true => "true".toList
  | .bool false => "false".toList
  | .num n => showNumber n
  | .str s => quote s
  | .arr items => '[' :: ([','].intercalate (encodeItems items) ++ [']'])
  | .obj fields => '\x7b' :: ([','].intercalate (encodeFields fields) ++ ['\x7d'])

def encodeItems : List JsonValue → List (List Char)
  | [] => []
  | v :: rest => encode v :: encodeItems rest

def encodeFields : List (String × JsonValue) → List (List Char)
  | [] => []
  | f :: rest => encodeField f :: encodeFields rest

def encodeField : String × JsonValue → List Char
  | (key, v) => quote key ++ ':' :: encode v

end

/-- Bytes of a text in UTF-8. -/
def textLen (cs : List Char) : Nat := (cs.map Char.utf8Size).sum

def encodedLen (v : JsonValue) : Nat := textLen (encode v)

/-! ### Lengths -/

@[simp] theorem textLen_nil : textLen [] = 0 := rfl

@[simp] theorem textLen_cons (ch : Char) (cs : List Char) :
    textLen (ch :: cs) = ch.utf8Size + textLen cs := by
  simp [textLen]

@[simp] theorem textLen_append (cs ds : List Char) :
    textLen (cs ++ ds) = textLen cs + textLen ds := by
  simp [textLen]

/-- The pieces and a comma between any two. -/
theorem textLen_intercalate (ls : List (List Char)) :
    textLen ([','].intercalate ls) = (ls.map textLen).sum + (ls.length - 1) := by
  induction ls with
  | nil => rfl
  | cons l ls ih =>
      cases ls with
      | nil => simp
      | cons k ks =>
          rw [List.intercalate_cons_cons, textLen_append, textLen_append, ih]
          have hcomma : textLen [','] = 1 := rfl
          simp only [List.map_cons, List.sum_cons, List.length_cons, hcomma]
          omega

theorem encodeItems_eq (items : List JsonValue) : encodeItems items = items.map encode := by
  induction items with
  | nil => rfl
  | cons v rest ih => rw [encodeItems, ih, List.map_cons]

theorem encodeFields_eq (fields : List (String × JsonValue)) :
    encodeFields fields = fields.map encodeField := by
  induction fields with
  | nil => rfl
  | cons f rest ih => rw [encodeFields, ih, List.map_cons]

theorem encodedLen_arr (items : List JsonValue) :
    encodedLen (.arr items) = (items.map encodedLen).sum + (items.length - 1) + 2 := by
  have hmap : (items.map encode).map textLen = items.map encodedLen := by
    rw [List.map_map]
    rfl
  have hopen : Char.utf8Size '[' = 1 := rfl
  have hclose : textLen [']'] = 1 := rfl
  rw [encodedLen, encode, textLen_cons, textLen_append, textLen_intercalate, encodeItems_eq, hmap,
    hopen, hclose, List.length_map]
  omega

theorem encodedLen_arr_concat (items : List JsonValue) (v : JsonValue) :
    encodedLen (.arr (items ++ [v])) =
      encodedLen (.arr items) + encodedLen v + if items = [] then 0 else 1 := by
  rw [encodedLen_arr, encodedLen_arr]
  cases items with
  | nil => simp [Nat.add_comm]
  | cons w rest =>
      simp only [List.map_append, List.sum_append, List.length_append, List.map_cons,
        List.sum_cons, List.length_cons, List.map_nil, List.sum_nil, List.length_nil,
        reduceCtorEq, if_false]
      omega

/-- What the keys and the punctuation of an object take. -/
def frameLen (keys : List String) : Nat :=
  (keys.map fun key => textLen (quote key) + 1).sum + (keys.length - 1) + 2

theorem encodedLen_obj (fields : List (String × JsonValue)) :
    encodedLen (.obj fields) =
      frameLen (fields.map Prod.fst) + (fields.map fun f => encodedLen f.2).sum := by
  have hmap : (((fields.map encodeField).map textLen).sum : Nat) =
      ((fields.map Prod.fst).map fun key => textLen (quote key) + 1).sum +
        (fields.map fun f => encodedLen f.2).sum := by
    induction fields with
    | nil => rfl
    | cons f rest ih =>
        obtain ⟨key, v⟩ := f
        have hcolon : Char.utf8Size ':' = 1 := rfl
        have hfield : textLen (encodeField (key, v)) =
            textLen (quote key) + 1 + encodedLen v := by
          rw [encodeField, textLen_append, textLen_cons, hcolon, encodedLen]
          omega
        simp only [List.map_cons, List.sum_cons, ih, hfield]
        omega
  have hopen : Char.utf8Size '\x7b' = 1 := rfl
  have hclose : textLen ['\x7d'] = 1 := rfl
  rw [encodedLen, encode, textLen_cons, textLen_append, textLen_intercalate, encodeFields_eq, hmap,
    hopen, hclose, frameLen, List.length_map, List.length_map]
  omega

/-- The object of `gs` has the keys of that of `fs`, and is longer by at most `n`. -/
def Grows (fs gs : List (String × JsonValue)) (n : Nat) : Prop :=
  gs.map Prod.fst = fs.map Prod.fst ∧
    (gs.map fun f => encodedLen f.2).sum ≤ (fs.map fun f => encodedLen f.2).sum + n

namespace Grows

variable {fs gs : List (String × JsonValue)} {n : Nat}

theorem nil : Grows [] [] 0 := ⟨rfl, Nat.le_refl _⟩

theorem same (f : String × JsonValue) (h : Grows fs gs n) : Grows (f :: fs) (f :: gs) n := by
  obtain ⟨hkeys, hlen⟩ := h
  refine ⟨by rw [List.map_cons, List.map_cons, hkeys], ?_⟩
  rw [List.map_cons, List.map_cons, List.sum_cons, List.sum_cons, Nat.add_assoc]
  exact Nat.add_le_add_left hlen _

theorem field (key : String) {v w : JsonValue} {k : Nat} (hv : encodedLen w ≤ encodedLen v + k)
    (h : Grows fs gs n) : Grows ((key, v) :: fs) ((key, w) :: gs) (k + n) := by
  obtain ⟨hkeys, hlen⟩ := h
  refine ⟨by rw [List.map_cons, List.map_cons, hkeys], ?_⟩
  rw [List.map_cons, List.map_cons, List.sum_cons, List.sum_cons]
  dsimp only
  omega

theorem encodedLen_le (h : Grows fs gs n) : encodedLen (.obj gs) ≤ encodedLen (.obj fs) + n := by
  rw [encodedLen_obj, encodedLen_obj, h.1, Nat.add_assoc]
  exact Nat.add_le_add_left h.2 _

end Grows

theorem textLen_showNat (n : Nat) : textLen (JsonText.showNat n) = (JsonText.showNat n).length := by
  have hone : ∀ cs : List Char, (∀ ch ∈ cs, ch.isDigit = true) → textLen cs = cs.length := by
    intro cs
    induction cs with
    | nil => exact fun _ => rfl
    | cons ch cs ih =>
        intro h
        have hdigit := h ch (by simp)
        have hsize : ch.utf8Size = 1 := by
          rw [Char.isDigit, Bool.and_eq_true, decide_eq_true_eq, decide_eq_true_eq] at hdigit
          rw [Char.utf8Size, if_pos]
          exact UInt32.le_trans hdigit.2 (by decide)
        rw [textLen_cons, ih fun c hc => h c (List.mem_cons_of_mem ch hc), hsize,
          List.length_cons]
        omega
  exact hone _ fun _ => JsonText.isDigit_of_mem_showNat

/-- No unsigned integer of 64 bits has more than twenty digits. -/
theorem encodedLen_nat_le (n : Nat) : encodedLen (nat n) ≤ 20 := by
  rw [nat, encodedLen, encode, showNumber, textLen_showNat]
  refine JsonText.length_showNat_le (by decide) ?_
  have := (UInt64.ofNat n).toNat_lt
  omega

theorem one_le_encodedLen_nat (n : Nat) : 1 ≤ encodedLen (nat n) := by
  rw [nat, encodedLen, encode, showNumber, textLen_showNat]
  exact List.length_pos_iff.mpr Nat.toDigits_ne_nil

theorem encodedLen_optNat_le (n : Option Nat) : encodedLen (optNat n) ≤ 20 := by
  cases n with
  | none => decide
  | some n => exact encodedLen_nat_le n

end JsonValue

end Paniolo
