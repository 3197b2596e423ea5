import Paniolo.Library.PathName
import Paniolo.Library.Sweeps
import Paniolo.Library.Text

/-!
# Stray helpers

`strays_in_ps` reads a listing of processes, closes the set of the tracked ones
over their children, and picks of the others those that run a program out of a
helper directory. `straysInPs_listing` says so for every listing, in whatever
order its rows stand.
-/

namespace Paniolo

namespace Cli

open Text

/-- One row of `ps -axo pid=,ppid=,args=`. -/
structure PsRow where
  pid : Int
  ppid : Int
  args : List Char
deriving DecidableEq, Repr

/-- The numeric columns are right-aligned, so each is taken up to the next run of blanks rather
than a single space. -/
def parsePsRow (line : List Char) : Option PsRow := do
  let pid ← splitOnce (· == ' ') (trimStart line)
  let ppid ← splitOnce (· == ' ') (trimStart pid.2)
  return ⟨← parseI32 pid.1, ← parseI32 ppid.1, trim ppid.2⟩

/-- True when argv[0] of `args` is a file directly inside one of `helperDirs`. -/
def launchedFrom (args : List Char) (helperDirs : List (List Char)) : Bool :=
  match (splitWhitespace args).head? with
  | none => false
  | some program =>
      match PathName.parent (PathName.components program) with
      | none => false
      | some dir => helperDirs.any fun d => PathName.components d == dir

/-- The parent links of a listing. -/
def psLinks (rows : List PsRow) : List (Int × Int) := rows.map fun row => (row.pid, row.ppid)

/-- The classification behind `list_stray_helpers`, over the text of a `ps` listing; none if the
closure of the excluded set does not come to an end. -/
def straysInPs (ps : List Char) (helperDirs : List (List Char)) (me : Int)
    (excludePids : List Int) : Option (List (Int × List Char)) :=
  let rows := (lines ps).filterMap parsePsRow
  (Sweeps.close (psLinks rows) (rows.length + 1) excludePids.toFinset).map fun excluded =>
    (rows.filter fun row => row.pid != me && !decide (row.pid ∈ excluded) &&
      launchedFrom row.args helperDirs).map fun row => (row.pid, row.args)

/-- The process is tracked: its pid is excluded, or it descends from one that is. -/
def Tracked (rows : List PsRow) (excludePids : List Int) (pid : Int) : Prop :=
  Sweeps.Descends (psLinks rows) excludePids.toFinset pid

/-- The program of the command line is a file directly in one of the directories. -/
def RunsFrom (helperDirs : List (List Char)) (args : List Char) : Prop :=
  ∃ program ∈ (splitWhitespace args).head?, ∃ dir ∈ helperDirs, ∃ file : PathName.Component,
    file ≠ .rootDir ∧ PathName.components program = PathName.components dir ++ [file]

theorem launchedFrom_iff {args : List Char} {helperDirs : List (List Char)} :
    launchedFrom args helperDirs = true ↔ RunsFrom helperDirs args := by
  rw [launchedFrom, RunsFrom]
  cases h : (splitWhitespace args).head? with
  | none => simp
  | some program =>
      simp only [Option.mem_some_iff, exists_eq_left']
      constructor
      · intro hany
        split at hany
        · cases hany
        · rename_i dir hdir
          obtain ⟨d, hd, heq⟩ := List.any_eq_true.mp hany
          obtain ⟨file, hroot, hfile⟩ := PathName.parent_eq_some_iff.mp hdir
          exact ⟨d, hd, file, hroot, (beq_iff_eq.mp heq) ▸ hfile⟩
      · rintro ⟨d, hd, file, hroot, hfile⟩
        have hdir := PathName.parent_eq_some_iff.mpr ⟨file, hroot, hfile⟩
        rw [hdir]
        exact List.any_eq_true.mpr ⟨d, hd, beq_self_eq_true _⟩

/-- Neither the caller nor tracked, and running from a helper directory. -/
def IsStray (rows : List PsRow) (helperDirs : List (List Char)) (me : Int) (excludePids : List Int)
    (row : PsRow) : Prop :=
  row.pid ≠ me ∧ ¬ Tracked rows excludePids row.pid ∧ RunsFrom helperDirs row.args

open Classical in
/-- The strays are found, in the order of the listing. -/
theorem straysInPs_eq (ps : List Char) (helperDirs : List (List Char)) (me : Int)
    (excludePids : List Int) :
    straysInPs ps helperDirs me excludePids =
      some ((((lines ps).filterMap parsePsRow).filter fun row =>
        decide (IsStray ((lines ps).filterMap parsePsRow) helperDirs me excludePids row)).map
          fun row => (row.pid, row.args)) := by
  set rows := (lines ps).filterMap parsePsRow
  obtain ⟨excluded, hclose, hmem⟩ := Sweeps.exists_close (psLinks rows) excludePids.toFinset
  rw [psLinks, List.length_map] at hclose
  rw [straysInPs]
  change Option.map _ (Sweeps.close (psLinks rows) (rows.length + 1) _) = _
  rw [psLinks, hclose, Option.map_some]
  refine congrArg (fun l : List PsRow => some (l.map fun row => (row.pid, row.args)))
    (List.filter_congr fun row _ => ?_)
  rw [Bool.eq_iff_iff, Bool.and_eq_true, Bool.and_eq_true, bne_iff_ne, Bool.not_eq_true',
    decide_eq_false_iff_not, hmem, launchedFrom_iff, decide_eq_true_eq, and_assoc]
  rfl

/-- A row as `ps` prints it: two right-aligned numbers and a command line. -/
structure PsLine where
  pidPad : Nat
  pid : Int32
  ppidPad : Nat
  ppid : Int32
  args : List Char
  args_line : '\n' ∉ args

namespace PsLine

def row (l : PsLine) : PsRow := ⟨l.pid.toInt, l.ppid.toInt, l.args⟩

/-- A number at the end of its column. -/
def column (pad : Nat) (n : Int32) : List Char := List.replicate pad ' ' ++ (toString n.toInt).toList

def text (l : PsLine) : List Char :=
  column l.pidPad l.pid ++ ' ' :: (column l.ppidPad l.ppid ++ ' ' :: l.args)

end PsLine

/-- The listing that `ps` prints. -/
def psText (listing : List PsLine) : List Char :=
  listing.flatMap fun l => l.text ++ ['\n']

theorem isWhitespace_toString {i : Int} {c : Char} (h : c ∈ (toString i).toList) :
    isWhitespace c = false := by
  rcases isDigit_or_sign_of_mem_toString h with hdigit | rfl
  · exact not_isWhitespace_of_isDigit hdigit
  · decide

theorem trimStart_column (pad : Nat) (n : Int32) (rest : List Char) :
    trimStart (PsLine.column pad n ++ rest) = (toString n.toInt).toList ++ rest := by
  obtain ⟨c, cs, hcs⟩ := List.exists_cons_of_ne_nil (toString_int_ne_nil n.toInt)
  have hc : isWhitespace c = false := isWhitespace_toString (hcs ▸ List.mem_cons_self)
  have hpad : ∀ x ∈ List.replicate pad ' ', isWhitespace x = true := fun x hx => by
    rw [List.eq_of_mem_replicate hx]
    decide
  rw [PsLine.column, List.append_assoc, trimStart, List.dropWhile_append_of_pos hpad, hcs,
    List.cons_append]
  exact trimStart_cons hc _

theorem parsePsRow_text (l : PsLine) (args : List Char) :
    parsePsRow (PsLine.column l.pidPad l.pid ++ ' ' :: (PsLine.column l.ppidPad l.ppid ++
      ' ' :: args)) = some ⟨l.pid.toInt, l.ppid.toInt, trim args⟩ := by
  have hspace : ∀ i : Int, ∀ x ∈ (toString i).toList, (x == ' ') = false := fun i =>
    beq_of_notMem (notMem_toString_int i (by decide) (by decide))
  have hparse : ∀ n : Int32, parseI32 (toString n.toInt).toList = some n.toInt := fun n =>
    parseI32_toString ⟨n.le_toInt, n.toInt_lt⟩
  have hpid : splitOnce (· == ' ') (trimStart (PsLine.column l.pidPad l.pid ++
      ' ' :: (PsLine.column l.ppidPad l.ppid ++ ' ' :: args))) =
      some ((toString l.pid.toInt).toList, PsLine.column l.ppidPad l.ppid ++ ' ' :: args) := by
    rw [trimStart_column]
    exact splitOnce_append (hspace _) (beq_self_eq_true ' ') _
  have hppid : splitOnce (· == ' ') (trimStart (PsLine.column l.ppidPad l.ppid ++ ' ' :: args)) =
      some ((toString l.ppid.toInt).toList, args) := by
    rw [trimStart_column]
    exact splitOnce_append (hspace _) (beq_self_eq_true ' ') _
  simp only [parsePsRow, hpid, hppid, hparse, Option.bind_eq_bind, Option.bind_some]
  rfl

/-- A carriage return at the end of a line goes with the other white space. -/
theorem trim_stripCr (s : List Char) : trim (stripCr s) = trim s := by
  rw [stripCr]
  split
  · rename_i hlast
    have hsplit : s = s.dropLast ++ ['\r'] := (List.dropLast_append_getLast? _ hlast).symm
    have hwhite : isWhitespace '\r' = true := by decide
    conv => rhs; rw [hsplit]
    rw [trim, trim, trimStart, trimStart, List.dropWhile_append]
    split
    · rename_i hempty
      rw [List.isEmpty_iff.mp hempty, List.dropWhile_cons_of_pos hwhite]
      rfl
    · rw [List.rdropWhile_concat_pos _ _ _ hwhite]
  · rfl

theorem parsePsRow_stripCr (l : PsLine) :
    parsePsRow (stripCr l.text) = some ⟨l.pid.toInt, l.ppid.toInt, trim l.args⟩ := by
  have hstrip : stripCr l.text = PsLine.column l.pidPad l.pid ++ ' ' ::
      (PsLine.column l.ppidPad l.ppid ++ ' ' :: stripCr l.args) := by
    have hfront : ∀ args : List Char, PsLine.column l.pidPad l.pid ++ ' ' ::
        (PsLine.column l.ppidPad l.ppid ++ ' ' :: args) =
        (PsLine.column l.pidPad l.pid ++ ' ' :: PsLine.column l.ppidPad l.ppid) ++ (' ' :: args) :=
      fun args => by rw [List.append_assoc, List.cons_append]
    have hargs : stripCr (' ' :: l.args) = ' ' :: stripCr l.args := by
      cases hcase : l.args with
      | nil => rfl
      | cons c cs => exact stripCr_append [' '] (List.cons_ne_nil c cs)
    rw [PsLine.text, hfront, hfront, stripCr_append _ (List.cons_ne_nil _ _), hargs]
  rw [hstrip, parsePsRow_text, trim_stripCr]

theorem newline_notMem_text (l : PsLine) : '\n' ∉ l.text := by
  have hcolumn : ∀ (pad : Nat) (n : Int32), '\n' ∉ PsLine.column pad n := by
    intro pad n hmem
    rcases List.mem_append.mp hmem with hmem | hmem
    · exact absurd (List.eq_of_mem_replicate hmem) (by decide)
    · exact notMem_toString_int _ (by decide) (by decide) hmem
  rw [PsLine.text]
  simp only [List.mem_append, List.mem_cons, hcolumn, l.args_line, or_false, false_or]
  decide

/-- A listing is read as the rows it is made of, with the command lines trimmed. -/
theorem rows_psText (listing : List PsLine) :
    (lines (psText listing)).filterMap parsePsRow =
      listing.map fun l => ⟨l.pid.toInt, l.ppid.toInt, trim l.args⟩ := by
  have hlines : lines (psText listing) = listing.map fun l => stripCr l.text := by
    have hflat : psText listing = (listing.map PsLine.text).flatMap fun line => line ++ ['\n'] := by
      rw [psText, List.flatMap_map]
    rw [hflat, lines_flatMap, List.map_map]
    · rfl
    · intro line hline
      obtain ⟨l, -, rfl⟩ := List.mem_map.mp hline
      exact newline_notMem_text l
  rw [hlines, List.filterMap_map, ← List.filterMap_eq_map]
  exact List.filterMap_congr fun l _ => parsePsRow_stripCr l

open Classical in
/-- Of every listing the strays are picked: the rows, in order, whose process is neither the
caller nor tracked, and whose program lies directly in a helper directory. -/
theorem straysInPs_listing (listing : List PsLine) (helperDirs : List (List Char)) (me : Int)
    (excludePids : List Int) :
    straysInPs (psText listing) helperDirs me excludePids =
      some ((listing.filter fun l =>
        decide (IsStray (listing.map PsLine.row) helperDirs me excludePids l.row)).map
          fun l => (l.pid.toInt, trim l.args)) := by
  have hlinks : psLinks (listing.map fun l => ⟨l.pid.toInt, l.ppid.toInt, trim l.args⟩) =
      psLinks (listing.map PsLine.row) := by
    rw [psLinks, psLinks, List.map_map, List.map_map]
    rfl
  rw [straysInPs_eq, rows_psText, List.filter_map, List.map_map]
  refine congrArg (fun l : List PsLine => some (l.map fun l => (l.pid.toInt, trim l.args)))
    (List.filter_congr fun l _ => ?_)
  refine decide_eq_decide.mpr ?_
  rw [IsStray, IsStray, Tracked, Tracked, hlinks]
  refine and_congr_right fun _ => and_congr_right fun _ => ?_
  change RunsFrom helperDirs (trim l.args) ↔ RunsFrom helperDirs l.args
  rw [RunsFrom, splitWhitespace_trim]
  rfl

/-- A wedged one-shot is found; the helper under `sudo`, listed before it, is not. -/
example : straysInPs
    "  201   200 /usr/bin/netbootd\n  200     1 sudo /usr/bin/netbootd\n  400     1 /usr/bin/zigplug on\n".toList
    ["/usr/bin/".toList] 500 [200] = some [(400, "/usr/bin/zigplug on".toList)] := by
  decide +kernel

end Cli

end Paniolo
