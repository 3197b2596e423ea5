import Paniolo.Library.Lines
import Paniolo.Serialcap.LineLog.Record

/-!
# Segments of the capture log

The files of a capture directory: `serial.jsonl`, which lines are appended to, and the segments that
were rotated out of it. A segment is read line by line, and what is no record is skipped; text that
is not UTF-8 ends the reading of its segment.
-/

namespace Paniolo

namespace Serialcap

namespace LineLog

open Utf8

open Journal (newline)

/-- Rotated segments kept, and the active one. -/
def MAX_SEGMENTS : Nat := 5

/-- The files of a capture directory: segment 0 is `serial.jsonl`, segment `k` is
`serial.jsonl.k`. -/
structure Dir where
  segments : Nat → Option (List UInt8)
  sidecar : Option (List UInt8)

namespace Dir

def empty : Dir := ⟨fun _ => none, none⟩

/-- What there is to read of a segment. -/
def contents (d : Dir) (k : Nat) : List UInt8 := (d.segments k).getD []

/-- `open_private_append`. -/
def openAppend (d : Dir) (k : Nat) : Dir :=
  { d with segments := Function.update d.segments k (some (d.contents k)) }

def append (d : Dir) (k : Nat) (bytes : List UInt8) : Dir :=
  { d with segments := Function.update d.segments k (some (d.contents k ++ bytes)) }

def remove (d : Dir) (k : Nat) : Dir := { d with segments := Function.update d.segments k none }

/-- A file that is not there is not renamed. -/
def rename (d : Dir) (source target : Nat) : Dir :=
  match d.segments source with
  | none => d
  | some bytes =>
      { d with segments :=
          Function.update (Function.update d.segments source none) target (some bytes) }

/-- `rotate`: the segments move up by one and the oldest is dropped. -/
def rotate (d : Dir) : Dir :=
  let d := d.remove (MAX_SEGMENTS - 1)
  let d := (List.range' 1 (MAX_SEGMENTS - 2)).reverse.foldl (fun d k => d.rename k (k + 1)) d
  (d.rename 0 1).openAppend 0

end Dir

/-! ### Reading -/

/-- A line without its end. -/
def chomp (piece : List UInt8) : List UInt8 :=
  if piece.getLast? = some newline then
    let line := piece.dropLast
    if line.getLast? = some carriageReturn then line.dropLast else line
  else piece

/-- `for_each_line`. -/
def forEachLine (c : LineCodec) (bytes : List UInt8) : List Line :=
  (((splitAfter newline bytes).map chomp).takeWhile fun l => (utf8Error l).isNone).filterMap c.decode

/-- The segments, oldest first. -/
def readOrder : List Nat := (List.range' 1 (MAX_SEGMENTS - 1)).reverse ++ [0]

def allLines (c : LineCodec) (d : Dir) : List Line :=
  readOrder.flatMap fun k => forEachLine c (d.contents k)

def maxSeq (ls : List Line) : Option UInt64 :=
  ls.foldl (fun m l => some (m.elim l.seq fun m => if m < l.seq then l.seq else m)) none

def recoverNextSeq (c : LineCodec) (d : Dir) : UInt64 := (maxSeq (allLines c d)).elim 0 (· + 1)

def countLines (c : LineCodec) (bytes : List UInt8) : Nat := (forEachLine c bytes).length

/-- A line selection; an unset field imposes no constraint. -/
structure Query where
  tail : Option UInt64
  fromSeq : Option UInt64
  toSeq : Option UInt64
  since : Option UInt64
  includePending : Bool

/-- `Query::default()`. -/
def Query.all : Query := ⟨none, none, none, none, false⟩

def Query.selects (q : Query) (l : Line) : Bool :=
  q.since.all (· < l.seq) && q.fromSeq.all (· ≤ l.seq) && q.toSeq.all (l.seq ≤ ·)

def readPending (c : LineCodec) (d : Dir) : Option Line :=
  d.sidecar.bind fun s => if (utf8Error s).isNone then c.decode s else none

/-- The lines read, and the pending one if it is newer than all of them. -/
def withPending (q : Query) (pending : Option Line) (all : List Line) : List Line :=
  if q.includePending then
    match pending with
    | some p => if all.all (·.seq < p.seq) then all ++ [p] else all
    | none => all
  else all

def readLines (c : LineCodec) (d : Dir) (q : Query) : List Line :=
  let out := (withPending q (readPending c d) (allLines c d)).filter q.selects
  match q.tail with
  | some n => out.drop (out.length - n.toNat)
  | none => out

theorem readLines_all (c : LineCodec) (d : Dir) : readLines c d .all = allLines c d := by
  have hselects : ∀ l ∈ allLines c d, Query.all.selects l = true := fun l _ => rfl
  exact List.filter_eq_self.mpr hselects

/-- What is selected of lines in order is in order. -/
theorem pairwise_readLines {c : LineCodec} {d : Dir}
    (h : (allLines c d).Pairwise fun l m => l.seq < m.seq) (q : Query) :
    (readLines c d q).Pairwise fun l m => l.seq < m.seq := by
  have hpending : (withPending q (readPending c d) (allLines c d)).Pairwise
      fun l m => l.seq < m.seq := by
    rw [withPending.eq_def]
    split
    · split
      · next p _ =>
          split
          · next hall =>
              refine List.pairwise_append.mpr ⟨h, List.pairwise_singleton _ _, fun l hl m hm => ?_⟩
              rw [List.mem_singleton.mp hm]
              exact of_decide_eq_true (List.all_eq_true.mp hall l hl)
          · exact h
      · exact h
    · exact h
  have hfilter := hpending.filter q.selects
  rw [readLines]
  split
  · exact hfilter.sublist (List.drop_sublist _ _)
  · exact hfilter

/-! ### The largest sequence number -/

theorem maxSeq_concat (ls : List Line) (l : Line) :
    maxSeq (ls ++ [l]) =
      some ((maxSeq ls).elim l.seq fun m => if m < l.seq then l.seq else m) := by
  rw [maxSeq, List.foldl_append]
  rfl

/-- It is the number of one of the lines, and no other is above it. -/
theorem maxSeq_spec (ls : List Line) :
    (∀ l ∈ ls, ∃ m ∈ maxSeq ls, l.seq ≤ m) ∧ ∀ m ∈ maxSeq ls, ∃ l ∈ ls, l.seq = m := by
  induction ls using List.reverseRecOn with
  | nil => exact ⟨nofun, nofun⟩
  | append_singleton ls x ih =>
      obtain ⟨hle, hmem⟩ := ih
      rw [maxSeq_concat]
      have hx : x ∈ ls ++ [x] := List.mem_append_right _ List.mem_cons_self
      cases hm : maxSeq ls with
      | none =>
          refine ⟨fun l hl => ⟨x.seq, rfl, ?_⟩, fun m h => ⟨x, hx, Option.some.inj h⟩⟩
          rcases List.mem_append.mp hl with hl | hl
          · obtain ⟨m, hm', -⟩ := hle l hl
            rw [hm] at hm'
            cases hm'
          · rw [List.mem_singleton.mp hl]
            exact UInt64.le_refl _
      | some m =>
          rw [Option.elim_some]
          refine ⟨fun l hl => ⟨_, rfl, ?_⟩, fun n h => ?_⟩
          · have hcases : l.seq ≤ m ∨ l = x := by
              rcases List.mem_append.mp hl with hl | hl
              · obtain ⟨n, hn, hln⟩ := hle l hl
                rw [hm] at hn
                cases hn
                exact Or.inl hln
              · exact Or.inr (List.mem_singleton.mp hl)
            split
            · next hlt =>
                rcases hcases with hln | rfl
                · exact UInt64.le_trans hln (UInt64.le_of_lt hlt)
                · exact UInt64.le_refl _
            · next hlt =>
                rcases hcases with hln | rfl
                · exact hln
                · exact UInt64.not_lt.mp hlt
          · cases h
            split
            · exact ⟨x, hx, rfl⟩
            · obtain ⟨l, hl, hlm⟩ := hmem m hm
              exact ⟨l, List.mem_append_left _ hl, hlm⟩

theorem toNat_succ {n : UInt64} (h : n.toNat + 1 < 2 ^ 64) : (n + 1).toNat = n.toNat + 1 := by
  rw [UInt64.toNat_add, UInt64.toNat_one, Nat.mod_eq_of_lt h]

/-- The recovered number is above all that are on disk. -/
theorem lt_recoverNextSeq {c : LineCodec} {d : Dir}
    (hfits : ∀ l ∈ allLines c d, l.seq.toNat + 1 < 2 ^ 64) {l : Line} (hl : l ∈ allLines c d) :
    l.seq < recoverNextSeq c d := by
  obtain ⟨m, hm, hle⟩ := (maxSeq_spec (allLines c d)).1 l hl
  obtain ⟨x, hx, hxm⟩ := (maxSeq_spec (allLines c d)).2 m hm
  have hfit := hfits x hx
  rw [hxm] at hfit
  rw [recoverNextSeq, hm, Option.elim_some, UInt64.lt_iff_toNat_lt, toNat_succ hfit]
  exact Nat.lt_succ_of_le (UInt64.le_iff_toNat_le.mp hle)

/-! ### What a file of records is read as -/

/-- What is read of a last line without its end. -/
def lastLine (c : LineCodec) (tail : List UInt8) : List Line :=
  if tail = [] then [] else if (utf8Error tail).isNone then (c.decode tail).toList else []

theorem chomp_of_notMem {l : List UInt8} (h : newline ∉ l) : chomp l = l := by
  have hlast : l.getLast? ≠ some newline := fun hlast => h (List.mem_of_getLast? hlast)
  rw [chomp, if_neg hlast]

theorem forEachLine_eq {c : LineCodec} (h : c.Lawful) (ls : List Line) {tail : List UInt8}
    (htail : newline ∉ tail) :
    forEachLine c (unlines newline (ls.map c.encode) ++ tail) = ls ++ lastLine c tail := by
  have hchomp : ∀ l, chomp (c.encode l ++ [newline]) = c.encode l := by
    intro l
    rw [chomp, List.getLast?_concat, if_pos rfl, List.dropLast_concat, if_neg (h.getLast?_encode l)]
  have hencode : ∀ l ∈ ls.map c.encode, newline ∉ l := by
    intro l hl
    obtain ⟨x, -, rfl⟩ := List.mem_map.mp hl
    exact h.newline_notMem x
  have hlines : ((ls.map c.encode).map (· ++ [newline])).map chomp = ls.map c.encode := by
    rw [List.map_map, List.map_map]
    exact List.map_congr_left fun l _ => hchomp l
  have hlast : (((if tail = [] then [] else [tail]).map chomp).takeWhile
      fun l => (utf8Error l).isNone).filterMap c.decode = lastLine c tail := by
    rw [lastLine]
    by_cases hnil : tail = []
    · rw [if_pos hnil, if_pos hnil]
      rfl
    · rw [if_neg hnil, if_neg hnil, List.map_singleton, chomp_of_notMem htail, List.takeWhile_cons,
        List.takeWhile_nil]
      split
      · rw [List.filterMap_cons]
        cases c.decode tail <;> rfl
      · rfl
  have hall : ∀ l ∈ ls.map c.encode, (utf8Error l).isNone = true := by
    intro l hl
    obtain ⟨x, -, rfl⟩ := List.mem_map.mp hl
    rw [h.wellFormed x]
    rfl
  have hdecode : (ls.map c.encode).filterMap c.decode = ls := by
    rw [List.filterMap_map]
    exact (List.filterMap_congr fun l _ => h.decode_encode l).trans List.filterMap_some
  rw [forEachLine, splitAfter_unlines hencode htail, List.map_append, hlines,
    List.takeWhile_append_of_pos hall, List.filterMap_append, hdecode, hlast]

/-- The beginning of a record is read as the whole record or not at all. -/
theorem lastLine_of_prefix {c : LineCodec} (h : c.Lawful) {l : Line} {tail : List UInt8}
    (hp : tail <+: c.encode l) : lastLine c tail = [] ∨ lastLine c tail = [l] := by
  rw [lastLine]
  split_ifs with hnil hutf
  · exact Or.inl rfl
  · by_cases heq : tail = c.encode l
    · right
      rw [heq, h.decode_encode]
      rfl
    · left
      rw [h.decode_prefix l tail hp heq (Option.isNone_iff_eq_none.mp hutf)]
      rfl
  · exact Or.inl rfl

/-! ### What the operations do to the contents -/

namespace Dir

variable (d : Dir)

theorem contents_openAppend (k : Nat) : (d.openAppend k).contents = d.contents := by
  funext m
  by_cases hm : m = k
  · rw [contents, openAppend, hm]
    dsimp only
    rw [Function.update_self]
    rfl
  · rw [contents, openAppend]
    dsimp only
    rw [Function.update_of_ne hm]
    rfl

theorem contents_append (k : Nat) (bytes : List UInt8) :
    (d.append k bytes).contents = Function.update d.contents k (d.contents k ++ bytes) := by
  funext m
  by_cases hm : m = k
  · rw [hm, Function.update_self, contents, append]
    dsimp only
    rw [Function.update_self]
    rfl
  · rw [Function.update_of_ne hm, contents, append]
    dsimp only
    rw [Function.update_of_ne hm]
    rfl

theorem contents_remove (k : Nat) : (d.remove k).contents = Function.update d.contents k [] := by
  funext m
  by_cases hm : m = k
  · rw [hm, Function.update_self, contents, remove]
    dsimp only
    rw [Function.update_self]
    rfl
  · rw [Function.update_of_ne hm, contents, remove]
    dsimp only
    rw [Function.update_of_ne hm]
    rfl

/-- A file is moved to where none is. -/
theorem contents_rename (source target : Nat) (hne : source ≠ target)
    (htarget : d.contents target = []) :
    (d.rename source target).contents =
      Function.update (Function.update d.contents target (d.contents source)) source [] := by
  funext m
  cases hsource : d.segments source with
  | none =>
      have hempty : d.contents source = [] := by
        rw [contents, hsource]
        rfl
      have hrename : d.rename source target = d := by
        rw [rename, hsource]
      rw [hrename, hempty, ← htarget, Function.update_eq_self, htarget, ← hempty,
        Function.update_eq_self]
  | some bytes =>
      have hbytes : d.contents source = bytes := by
        rw [contents, hsource]
        rfl
      have hrename : (d.rename source target).segments =
          Function.update (Function.update d.segments source none) target (some bytes) := by
        rw [rename, hsource]
      rw [contents, hrename, hbytes]
      by_cases hm : m = source
      · rw [hm, Function.update_of_ne hne, Function.update_self, Function.update_self]
        rfl
      · rw [Function.update_of_ne hm]
        by_cases ht : m = target
        · rw [ht, Function.update_self, Function.update_self]
          rfl
        · rw [Function.update_of_ne ht, Function.update_of_ne hm, Function.update_of_ne ht]
          rfl

/-- Every segment moves up by one. -/
theorem contents_rotate :
    d.rotate.contents 0 = [] ∧
      ∀ k < MAX_SEGMENTS - 1, d.rotate.contents (k + 1) = d.contents k := by
  have h4 := d.contents_remove 4
  have h3 := (d.remove 4).contents_rename 3 4 (by decide) (by rw [h4]; rfl)
  have h2 := ((d.remove 4).rename 3 4).contents_rename 2 3 (by decide) (by rw [h3]; rfl)
  have h1 := (((d.remove 4).rename 3 4).rename 2 3).contents_rename 1 2 (by decide)
    (by rw [h2]; rfl)
  have h0 := ((((d.remove 4).rename 3 4).rename 2 3).rename 1 2).contents_rename 0 1 (by decide)
    (by rw [h1]; rfl)
  have hrotate : d.rotate =
      (((((d.remove 4).rename 3 4).rename 2 3).rename 1 2).rename 0 1).openAppend 0 := rfl
  rw [hrotate, contents_openAppend, h0, h1, h2, h3, h4]
  refine ⟨rfl, fun k hk => ?_⟩
  have hcases : k = 0 ∨ k = 1 ∨ k = 2 ∨ k = 3 := by
    rw [MAX_SEGMENTS] at hk
    omega
  rcases hcases with rfl | rfl | rfl | rfl <;> rfl

end Dir

end LineLog

end Serialcap

end Paniolo
