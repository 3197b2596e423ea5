import Paniolo.Library.Text

/-!
# The shell command language

What POSIX says of a command that a shell is given, as far as words, quoting and
lists of simple commands go: how it is divided into words, which of them are
assignments, and what `read`, `export` and `exec` do in a shell that is given a
script and arguments. Where the standard leaves the outcome open, and for the rest
of the language (other operators and expansions), the result is `none`.
-/

namespace Paniolo

namespace Shell

open Text

/-- A part of a word: a character, bare or quoted, or the quoted `$@`. -/
inductive Piece where
  | bare (c : Char)
  | quoted (c : Char)
  | params
deriving DecidableEq, Repr

/-- A word before it is expanded. -/
abbrev Word := List Piece

inductive Token where
  | word (w : Word)
  | andIf
deriving DecidableEq, Repr

section Tokens

/-- Where in the quoting the next character stands. -/
inductive Mode where
  | plain
  | single
  | double
  | escape
  | dollar
  | ampersand
deriving DecidableEq, Repr

/-- The tokens so far, and the word that is being read. -/
structure Scan where
  mode : Mode
  current : Option Word
  tokens : List Token
deriving DecidableEq, Repr

namespace Scan

def start : Scan := ⟨.plain, none, []⟩

/-- The word ends here, if there is one. -/
def close (s : Scan) : Scan :=
  match s.current with
  | none => s
  | some w => ⟨s.mode, none, s.tokens ++ [.word w]⟩

/-- A word goes on, or begins, with `p`. -/
def push (s : Scan) (p : Piece) : Scan := { s with current := some (s.current.getD [] ++ [p]) }

/-- A word goes on, or begins, with a quotation. -/
def quote (s : Scan) (mode : Mode) : Scan :=
  { s with
    mode := mode
    current := some (s.current.getD []) }

def inMode (s : Scan) (mode : Mode) : Scan := { s with mode := mode }

end Scan

/-- Characters that end a word and begin something other than a word, unless they are quoted. -/
def isOperator (c : Char) : Bool := "|;<>()$`\n".toList.contains c

def step (s : Scan) (c : Char) : Option Scan :=
  match s.mode with
  | .plain =>
      if c = ' ' ∨ c = '\t' then some s.close
      else if c = '\'' then some (s.quote .single)
      else if c = '"' then some (s.quote .double)
      else if c = '\\' then some (s.inMode .escape)
      else if c = '&' then some (s.close.inMode .ampersand)
      else if isOperator c ∨ c = '#' ∧ s.current = none then none
      else some (s.push (.bare c))
  | .single => if c = '\'' then some (s.inMode .plain) else some (s.push (.quoted c))
  | .double =>
      if c = '"' then some (s.inMode .plain)
      else if c = '$' then some (s.inMode .dollar)
      else if c = '`' ∨ c = '\\' then none
      else some (s.push (.quoted c))
  | .escape =>
      if c = '\n' then some (s.inMode .plain) else some ((s.push (.quoted c)).inMode .plain)
  | .dollar => if c = '@' then some ((s.push .params).inMode .double) else none
  | .ampersand =>
      if c = '&' then some { s.inMode .plain with
        tokens := s.tokens ++ [.andIf] }
      else none

def scan (s : Scan) (text : List Char) : Option Scan := text.foldlM step s

def finish (s : Scan) : Option (List Token) :=
  if s.mode = .plain then some s.close.tokens else none

/-- The tokens of a command. -/
def tokens (text : List Char) : Option (List Token) := (scan .start text).bind finish

end Tokens

section Words

/-- A character that stands for itself. -/
def Piece.char : Piece → Option Char
  | .bare c => if "~*?[".toList.contains c then none else some c
  | .quoted c => some c
  | .params => none

def Piece.bareChar : Piece → Option Char
  | .bare c => some c
  | _ => none

/-- A word that no expansion applies to. -/
def text (w : Word) : Option (List Char) := w.mapM Piece.char

/-- What a word becomes when the parameters are `params`. -/
def field (params : List (List Char)) (w : Word) : Option (List (List Char)) :=
  if w = [.params] then some params else (text w).map fun t => [t]

def fields (params : List (List Char)) (ws : List Word) : Option (List (List Char)) :=
  (ws.mapM (field params)).map List.flatten

/-- A command that is words, and none of them is expanded. -/
def plainWords (cmd : List Char) : Option (List (List Char)) :=
  (tokens cmd).bind fun ts => ts.mapM fun t =>
    match t with
    | .word w => text w
    | .andIf => none

end Words

section Commands

/-- A name: letters, digits and underscores, not a digit first. -/
def isName : List Char → Bool
  | [] => false
  | c :: cs => (c.isAlpha || c == '_') && cs.all fun c => c.isAlphanum || c == '_'

theorem not_mem_of_isName {c : Char} (hc : (c.isAlphanum || c == '_') = false) {n : List Char}
    (h : isName n = true) : c ∉ n := by
  cases n with
  | nil => exact List.not_mem_nil
  | cons x n =>
      obtain ⟨hx, hn⟩ := Bool.and_eq_true_iff.mp h
      intro hmem
      rcases List.mem_cons.mp hmem with rfl | hmem
      · rw [Char.isAlphanum] at hc
        rw [Bool.or_eq_true_iff] at hx
        rcases hx with hx | hx
        · rw [hx] at hc
          cases hc
        · rw [hx, Bool.or_true] at hc
          cases hc
      · rw [List.all_eq_true.mp hn c hmem] at hc
        cases hc

/-- The words a shell reserves, and the variables whose value it keeps itself. -/
structure Dialect where
  reserved : List Char → Bool
  kept : List Char → Bool
  reserved_utility : ∀ w ∈ ["sh", "export", "exec"], reserved w.toList = false
  reserved_assignment : ∀ w, '=' ∈ w → reserved w = false

/-- Words that the standard reserves, or lets a shell reserve. -/
def reservedWords : List (List Char) :=
  ["!", "\x7b", "\x7d", "case", "do", "done", "elif", "else", "esac", "fi", "for", "if", "in",
    "then", "until", "while", "[[", "]]", "function", "namespace", "select", "time"].map
      String.toList

/-- A shell that reserves all that the standard lets it, with the variables that it sets by
itself. -/
def posix : Dialect where
  reserved w := reservedWords.contains w || w.getLast? == some ':' && isName w.dropLast
  kept n := ["LINENO".toList, "PPID".toList].contains n
  reserved_utility := by decide
  reserved_assignment := by
    intro w hw
    have hwords : reservedWords.all (fun w => !w.contains '=') = true := by decide
    rw [Bool.or_eq_false_iff, Bool.and_eq_false_iff]
    constructor
    · rw [Bool.eq_false_iff]
      intro hmem
      have hnot := List.all_eq_true.mp hwords w (List.contains_iff_mem.mp hmem)
      rw [List.contains_iff_mem.mpr hw] at hnot
      cases hnot
    · by_contra hn
      rw [not_or, Bool.not_eq_false, Bool.not_eq_false, beq_iff_eq] at hn
      obtain ⟨hlast, hname⟩ := hn
      rw [← List.dropLast_append_getLast? ':' hlast, List.mem_append, List.mem_singleton] at hw
      rcases hw with hmem | heq
      · exact absurd hmem (not_mem_of_isName (by decide) hname)
      · exact absurd heq (by decide)

/-- How the first words of a command are read. -/
inductive Reading where
  | word
  | assignment (name : List Char) (value : Word)
  | unspecified
deriving DecidableEq, Repr

/-- An assignment has a name before its first bare `=`; for anything else there the standard leaves
it open whether the word is one. -/
def reading (w : Word) : Reading :=
  let before := w.takeWhile (· ≠ .bare '=')
  let rest := w.dropWhile (· ≠ .bare '=')
  if before = [] ∨ rest = [] then .word
  else
    match before.mapM Piece.bareChar with
    | some name => if isName name then .assignment name rest.tail else .unspecified
    | none => .unspecified

structure SimpleCommand where
  assignments : List (List Char × Word)
  words : List Word
deriving DecidableEq, Repr

/-- The assignments are those in front of the first other word. -/
def simpleCommand : List Word → Option SimpleCommand
  | [] => some ⟨[], []⟩
  | w :: ws =>
      match reading w with
      | .word => some ⟨[], w :: ws⟩
      | .assignment name value =>
          (simpleCommand ws).map fun c => { c with
            assignments := (name, value) :: c.assignments }
      | .unspecified => none

def isReserved (d : Dialect) (w : Word) : Bool :=
  match w.mapM Piece.bareChar with
  | some t => t ≠ [] && d.reserved t
  | none => false

def parseCommand (d : Dialect) (ws : List Word) : Option SimpleCommand :=
  if ws.head?.all (isReserved d) then none else simpleCommand ws

/-- The words between the `&&`. -/
def conjuncts : List Token → List (List Word)
  | [] => [[]]
  | .andIf :: ts => [] :: conjuncts ts
  | .word w :: ts =>
      match conjuncts ts with
      | c :: cs => (w :: c) :: cs
      | [] => [[w]]

def commands (d : Dialect) (cmd : List Char) : Option (List SimpleCommand) :=
  (tokens cmd).bind fun ts => (conjuncts ts).mapM (parseCommand d)

/-- The words of a command that is a single one without assignments: what the shell runs. -/
def runs (d : Dialect) (cmd : List Char) : Option (List (List Char)) :=
  (commands d cmd).bind fun cs =>
    match cs with
    | [⟨[], ws⟩] => fields [] ws
    | _ => none

end Commands

section Running

/-- Variables and their values. -/
abbrev Env := List Char → Option (List Char)

def Env.set (env : Env) (name value : List Char) : Env :=
  fun n => if n = name then some value else env n

structure State where
  vars : Env
  exported : List Char → Bool
  params : List (List Char)
  stdin : List Char

/-- What a command that is run finds in its environment. -/
def State.environment (s : State) : Env := fun n => if s.exported n then s.vars n else none

inductive Outcome where
  | executes (argv : List (List Char)) (env : Env) (stdin : List Char)
  | exits (status : Nat)

/-- What a command does to its shell: it ends with a status, or takes the place of the shell. -/
inductive Effect where
  | ends (s : State) (status : Nat)
  | replaces (argv : List (List Char))

/-- `read` without field splitting and without escapes takes a line from the input; at the end of
the input it fails with what there is. -/
def readLine (s : State) (name : List Char) : Effect :=
  match splitOnce (· == '\n') s.stdin with
  | some (line, rest) => .ends { s with
      vars := s.vars.set name line
      stdin := rest } 0
  | none => .ends { s with
      vars := s.vars.set name s.stdin
      stdin := [] } 1

def runRead (d : Dialect) (s : State) (c : SimpleCommand) (args : List (List Char)) :
    Option Effect :=
  match args with
  | [option, name] =>
      if c.assignments = [("IFS".toList, [])] ∧ option = "-r".toList ∧ isName name ∧
          name ≠ "IFS".toList ∧ ¬d.kept name then some (readLine s name)
      else none
  | _ => none

def runExport (s : State) (c : SimpleCommand) (args : List (List Char)) : Option Effect :=
  match args with
  | [name] =>
      if c.assignments = [] ∧ isName name then
        some (.ends { s with
          exported := fun n => n = name || s.exported n } 0)
      else none
  | _ => none

/-- An operand that looks like an option may be taken for one. -/
def runExec (c : SimpleCommand) (args : List (List Char)) : Option Effect :=
  match args with
  | [] => none
  | name :: _ =>
      if c.assignments = [] ∧ name.head? ≠ some '-' then some (.replaces args) else none

def runCommand (d : Dialect) (s : State) (c : SimpleCommand) : Option Effect :=
  (fields s.params c.words).bind fun fs =>
    match fs with
    | [] => none
    | name :: args =>
        if name = "read".toList then runRead d s c args
        else if name = "export".toList then runExport s c args
        else if name = "exec".toList then runExec c args
        else none

/-- Commands joined by `&&`. -/
def runAll (d : Dialect) : State → List SimpleCommand → Option Outcome
  | _, [] => some (.exits 0)
  | s, c :: cs =>
      match runCommand d s c with
      | none => none
      | some (.replaces argv) => some (.executes argv s.environment s.stdin)
      | some (.ends s' 0) => runAll d s' cs
      | some (.ends _ (n + 1)) => some (.exits (n + 1))

/-- `sh -c script name params…`, started with an environment and an input. -/
def invoke (d : Dialect) (env : Env) (args : List (List Char)) (stdin : List Char) :
    Option Outcome :=
  match args with
  | option :: script :: _ :: params =>
      if option = "-c".toList then
        (commands d script).bind (runAll d ⟨env, fun n => (env n).isSome, params, stdin⟩)
      else none
  | _ => none

end Running

section Scanning

variable {s s' : Scan} {a b t : List Char} {ts : List Token} {w : Word}

theorem scan_append (s : Scan) (a b : List Char) :
    scan s (a ++ b) = (scan s a).bind fun s => scan s b := List.foldlM_append

theorem scan_cons (s : Scan) (c : Char) (a : List Char) :
    scan s (c :: a) = (step s c).bind fun s => scan s a := List.foldlM_cons

/-- A character that is a part of a word without being quoted. -/
def isOrdinary (c : Char) : Bool := !(" \t'\"\\&#".toList.contains c || isOperator c)

theorem step_ordinary {c : Char} (hc : isOrdinary c = true) (hs : s.mode = .plain) :
    step s c = some (s.push (.bare c)) := by
  rw [isOrdinary, Bool.not_eq_true', Bool.or_eq_false_iff] at hc
  obtain ⟨hspecial, hoperator⟩ := hc
  have hne : ∀ x ∈ " \t'\"\\&#".toList, c ≠ x := by
    rintro x hx rfl
    rw [List.contains_iff_mem.mpr hx] at hspecial
    cases hspecial
  have hblank : ¬(c = ' ' ∨ c = '\t') := fun h =>
    h.elim (hne ' ' (by decide)) (hne '\t' (by decide))
  have hend : ¬(isOperator c = true ∨ c = '#' ∧ s.current = none) := by
    rintro (h | ⟨h, -⟩)
    · rw [hoperator] at h
      cases h
    · exact hne '#' (by decide) h
  simp only [step, hs]
  rw [if_neg hblank, if_neg (hne '\'' (by decide)), if_neg (hne '"' (by decide)),
    if_neg (hne '\\' (by decide)), if_neg (hne '&' (by decide)), if_neg hend]

/-- A bare word goes on. -/
theorem scan_ordinary (h : ∀ c ∈ a, isOrdinary c = true) (w : Word) (ts : List Token) :
    scan ⟨.plain, some w, ts⟩ a = some ⟨.plain, some (w ++ a.map .bare), ts⟩ := by
  induction a generalizing w with
  | nil =>
      rw [List.map_nil, List.append_nil]
      rfl
  | cons c a ih =>
      have hrest := ih (fun x hx => h x (List.mem_cons_of_mem _ hx)) (w ++ [.bare c])
      rw [scan_cons, step_ordinary (h c List.mem_cons_self) rfl, List.map_cons,
        List.append_cons w (.bare c)]
      exact hrest

/-- A text that is one word, wherever it stands. -/
def Spells (t : List Char) (w : Word) : Prop :=
  ∀ ts, scan ⟨.plain, none, ts⟩ t = some ⟨.plain, some w, ts⟩

theorem spells_ordinary (hne : t ≠ []) (h : ∀ c ∈ t, isOrdinary c = true) :
    Spells t (t.map .bare) := by
  intro ts
  obtain ⟨c, t, rfl⟩ := List.exists_cons_of_ne_nil hne
  rw [scan_cons, step_ordinary (h c List.mem_cons_self) rfl]
  exact scan_ordinary (fun x hx => h x (List.mem_cons_of_mem _ hx)) [.bare c] ts

/-- A word and a blank. -/
theorem Spells.blank (h : Spells t w) (ts : List Token) :
    scan ⟨.plain, none, ts⟩ (t ++ [' ']) = some ⟨.plain, none, ts ++ [.word w]⟩ := by
  rw [scan_append, h]
  rfl

theorem finish_spells {texts : List (List Char)} {ws : List Word} (h : List.Forall₂ Spells texts ws)
    (ts : List Token) :
    (scan ⟨.plain, none, ts⟩ ([' '].intercalate texts)).bind finish =
      some (ts ++ ws.map .word) := by
  induction h generalizing ts with
  | nil =>
      rw [List.map_nil, List.append_nil]
      rfl
  | @cons t w texts ws hw hws ih =>
      cases hws with
      | nil =>
          have hone : [' '].intercalate [t] = t := by simp [List.intercalate]
          rw [hone, hw]
          rfl
      | @cons t' w' texts ws hw' hws =>
          have hcons : [' '].intercalate (t :: t' :: texts) =
              (t ++ [' ']) ++ [' '].intercalate (t' :: texts) := by
            rw [List.intercalate_cons_cons, List.append_assoc]
          have hrest := ih (ts ++ [.word w])
          rw [hcons, scan_append, hw.blank, Option.bind_some, hrest, List.append_assoc]
          rfl

/-- Words with a blank between them. -/
theorem tokens_spells {texts : List (List Char)} {ws : List Word}
    (h : List.Forall₂ Spells texts ws) :
    tokens ([' '].intercalate texts) = some (ws.map .word) := finish_spells h []

end Scanning

section Reading

variable {d : Dialect} {w : Word} {ws : List Word} {name : List Char}

theorem conjuncts_words (ws : List Word) : conjuncts (ws.map .word) = [ws] := by
  induction ws with
  | nil => rfl
  | cons w ws ih => rw [List.map_cons, conjuncts, ih]

theorem conjuncts_words_append (ws : List Word) (ts : List Token) :
    conjuncts (ws.map .word ++ .andIf :: ts) = ws :: conjuncts ts := by
  induction ws with
  | nil => rfl
  | cons w ws ih => rw [List.map_cons, List.cons_append, conjuncts, ih]

theorem text_map {f : Char → Piece} {t : List Char} (h : ∀ c ∈ t, (f c).char = some c) :
    text (t.map f) = some t := by
  induction t with
  | nil => rfl
  | cons c t ih =>
      have hrest := ih fun x hx => h x (List.mem_cons_of_mem _ hx)
      rw [text, List.map_cons, List.mapM_cons, h c List.mem_cons_self, ← text, hrest]
      rfl

theorem mapM_bareChar (t : List Char) : (t.map Piece.bare).mapM Piece.bareChar = some t := by
  induction t with
  | nil => rfl
  | cons c t ih =>
      rw [List.map_cons, List.mapM_cons, ih]
      rfl

theorem reading_of_not_mem (h : .bare '=' ∉ w) : reading w = .word := by
  have hrest : w.dropWhile (· ≠ .bare '=') = [] := by
    rw [List.dropWhile_eq_nil_iff]
    intro p hp
    rw [decide_eq_true_eq]
    rintro rfl
    exact h hp
  rw [reading, if_pos (.inr hrest)]

/-- A bare word is no assignment when there is no `=` in it, or it begins with one. -/
theorem reading_bare_iff (t : List Char) :
    reading (t.map .bare) = .word ↔ '=' ∉ t ∨ t.head? = some '=' := by
  by_cases hmem : '=' ∈ t
  · have hbare : Piece.bare '=' ∈ t.map .bare := List.mem_map_of_mem hmem
    have hrest : (t.map Piece.bare).dropWhile (· ≠ .bare '=') ≠ [] := by
      intro hnil
      have := List.dropWhile_eq_nil_iff.mp hnil _ hbare
      rw [decide_eq_true_eq] at this
      exact this rfl
    obtain ⟨c, t, rfl⟩ := List.exists_cons_of_ne_nil (List.ne_nil_of_mem hmem)
    have hhead : (c :: t).head? = some '=' ↔ c = '=' := by
      rw [List.head?_cons, Option.some.injEq]
    rw [hhead, or_iff_right (not_not_intro hmem), reading]
    constructor
    · intro h
      by_contra hc
      have hbefore : ¬(((c :: t).map Piece.bare).takeWhile (· ≠ .bare '=') = [] ∨
          ((c :: t).map Piece.bare).dropWhile (· ≠ .bare '=') = []) := by
        rintro (hnil | hnil)
        · rw [List.map_cons, List.takeWhile_cons_of_pos] at hnil
          · cases hnil
          · rw [decide_eq_true_eq]
            exact fun heq => hc (Piece.bare.inj heq)
        · exact hrest hnil
      rw [if_neg hbefore] at h
      split at h
      · split at h
        · cases h
        · cases h
      · cases h
    · rintro rfl
      exact if_pos (.inl rfl)
  · rw [iff_true_right (.inl hmem)]
    apply reading_of_not_mem
    intro hbare
    obtain ⟨c, hc, heq⟩ := List.mem_map.mp hbare
    rw [Piece.bare.inj heq] at hc
    exact hmem hc

end Reading

section Running

variable {d : Dialect} {w : Word} {ws : List Word}

theorem commands_spells {texts : List (List Char)} (h : List.Forall₂ Spells texts ws) :
    commands d ([' '].intercalate texts) = (parseCommand d ws).map fun c => [c] := by
  rw [commands, tokens_spells h, Option.bind_some, conjuncts_words]
  cases hc : parseCommand d ws with
  | none =>
      rw [List.mapM_cons, hc]
      rfl
  | some c =>
      rw [List.mapM_cons, hc]
      rfl

/-- Words are run when the first of them is neither reserved nor read as an assignment. -/
theorem runs_iff {texts fs : List (List Char)} (h : List.Forall₂ Spells texts (w :: ws))
    (hfs : fields [] (w :: ws) = some fs) :
    runs d ([' '].intercalate texts) = some fs ↔ isReserved d w = false ∧ reading w = .word := by
  rw [runs, commands_spells h, parseCommand, List.head?_cons, Option.all_some]
  cases hreserved : isReserved d w with
  | true => exact iff_of_false nofun fun h => Bool.noConfusion h.1
  | false =>
      rw [if_neg Bool.false_ne_true, simpleCommand]
      cases hreading : reading w with
      | word => exact iff_of_true hfs ⟨rfl, rfl⟩
      | unspecified => exact iff_of_false nofun fun h => Reading.noConfusion h.2
      | assignment name value =>
          refine iff_of_false ?_ fun h => Reading.noConfusion h.2
          cases simpleCommand ws with
          | none => exact nofun
          | some c => exact nofun

theorem plainWords_spells {texts fs : List (List Char)} (h : List.Forall₂ Spells texts ws)
    (hfs : ws.mapM text = some fs) : plainWords ([' '].intercalate texts) = some fs := by
  rw [plainWords, tokens_spells h, Option.bind_some, List.mapM_map]
  exact hfs

/-- The environment after some variables were set. -/
def Env.setAll : Env → List (List Char × List Char) → Env
  | env, [] => env
  | env, (name, value) :: vars => (env.set name value).setAll vars

theorem Env.setAll_cases (env : Env) (vars : List (List Char × List Char)) (n : List Char) :
    (n ∉ vars.map Prod.fst ∧ env.setAll vars n = env n) ∨
      ∃ v, (n, v) ∈ vars ∧ env.setAll vars n = some v := by
  induction vars generalizing env with
  | nil => exact .inl ⟨List.not_mem_nil, rfl⟩
  | cons e vars ih =>
      obtain ⟨name, value⟩ := e
      rcases ih (env.set name value) with ⟨hn, heq⟩ | ⟨v, hv, heq⟩
      · by_cases hname : n = name
        · refine .inr ⟨value, ?_, ?_⟩
          · rw [hname]
            exact List.mem_cons_self
          · rw [setAll, heq, set, if_pos hname]
        · refine .inl ⟨?_, ?_⟩
          · rw [List.map_cons, List.mem_cons, not_or]
            exact ⟨hname, hn⟩
          · rw [setAll, heq, set, if_neg hname]
      · exact .inr ⟨v, List.mem_cons_of_mem _ hv, heq⟩

/-- Every variable has its value, unless two of one name differ. -/
theorem Env.setAll_iff (env : Env) (vars : List (List Char × List Char)) :
    (∀ e ∈ vars, env.setAll vars e.1 = some e.2) ↔
      ∀ e ∈ vars, ∀ e' ∈ vars, e.1 = e'.1 → e.2 = e'.2 := by
  constructor
  · intro h e he e' he' hname
    have hval := h e he
    rw [hname, h e' he'] at hval
    exact (Option.some.inj hval).symm
  · intro h e he
    rcases env.setAll_cases vars e.1 with ⟨hn, -⟩ | ⟨v, hv, heq⟩
    · exact absurd (List.mem_map_of_mem he) hn
    · rw [heq, h e he (e.1, v) hv rfl]

/-- The shell after `read` and `export` of a variable. -/
def State.give (s : State) (name value : List Char) : State :=
  { s with
    vars := s.vars.set name value
    exported := fun n => n = name || s.exported n }

theorem environment_give (s : State) (name value : List Char) :
    (s.give name value).environment = s.environment.set name value := by
  funext n
  by_cases hn : n = name
  · simp [State.environment, State.give, Env.set, hn]
  · simp [State.environment, State.give, Env.set, hn]

theorem environment_invoked (env : Env) (params : List (List Char)) (stdin : List Char) :
    State.environment ⟨env, fun n => (env n).isSome, params, stdin⟩ = env := by
  funext n
  cases h : env n <;> simp [State.environment, h]

end Running

end Shell

end Paniolo
