import Paniolo.Library.Shell
import Paniolo.Library.Utf8Cut

/-!
# Commands on a control host

`cli/ssh.rs`: how an argument list becomes one command for the shell of a control
host, and how the secrets that go with it travel. The command names the variables
and not their values; the values are the first lines of its input, read there
before the rest of the input is left to the command.
-/

namespace Paniolo

namespace Cli

open Shell

section Ssh

/-- The bytes that `shell_quote` leaves as they are. -/
def isSafe (c : Char) : Bool := c.isAlphanum || "@%_+=:,./-".toList.contains c

/-- `shell_quote`. -/
def shellQuote (s : List Char) : List Char :=
  if s ≠ [] ∧ s.all isSafe then s
  else '\'' :: s.flatMap (fun c => if c = '\'' then "'\\''".toList else [c]) ++ ['\'']

/-- `FORWARDED_ENV`. -/
def forwardedEnvNames : List (List Char) := ["AMT_PASSWORD".toList]

/-- `OsString::into_string`, of the bytes of a variable. -/
def intoString (raw : List UInt8) : Option (List Char) :=
  if Utf8.utf8Error raw = none then some (Utf8.decode raw) else none

/-- `collect_forwarded`. -/
def collectForwarded (lookup : List Char → Option (List UInt8)) :
    List (List Char) → Except String (List (List Char × List Char))
  | [] => .ok []
  | name :: names =>
      let invalid (why : String) := String.ofList name ++ " " ++ why ++
        ", so it cannot be forwarded to a control host"
      match lookup name with
      | none => collectForwarded lookup names
      | some raw =>
          match intoString raw with
          | none => .error (invalid "is not valid UTF-8")
          | some value =>
              if value.contains '\n' then .error (invalid "contains a newline")
              else (collectForwarded lookup names).map ((name, value) :: ·)

/-- `is_env_name`. -/
def isEnvName : List Char → Bool
  | [] => false
  | c :: cs => (c.isAlpha || c == '_') && cs.all fun c => c.isAlphanum || c == '_'

/-- The script of `stdin_prelude`. -/
def preludeScript (vars : List (List Char)) : List Char :=
  vars.flatMap (fun v => "IFS= read -r ".toList ++ v ++ " && export ".toList ++ v ++
    " && ".toList) ++ "exec \"$@\"".toList

/-- `stdin_prelude`; it panics on what is no name of a variable. -/
def stdinPrelude (argv vars : List (List Char)) : Option (List Char) :=
  if vars.all isEnvName then
    some ([' '].intercalate (["sh".toList, "-c".toList, shellQuote (preludeScript vars),
      "sh".toList] ++ argv.map shellQuote))
  else none

/-- `remote_command`. -/
def remoteCommand (argv : List (List Char)) (env : List (List Char × List Char)) :
    Option (List Char) :=
  if env = [] then some ([' '].intercalate (argv.map shellQuote))
  else stdinPrelude argv (env.map Prod.fst)

inductive StdinSource where
  | null
  | data (d : List Char)
  | inherit
deriving DecidableEq, Repr

/-- What follows the lines of the variables, in a process with the input `own`. -/
def StdinSource.rest (own : List Char) : StdinSource → List Char
  | .null => []
  | .data d => d
  | .inherit => own

/-- `matches!(stdin, StdinSource::Data(_))`. -/
def StdinSource.isData : StdinSource → Bool
  | .data _ => true
  | _ => false

/-- A child: the command it is given and all that it can read. -/
structure Child where
  command : List Char
  stdin : List Char
deriving DecidableEq, Repr

/-- `launch`: the input is a pipe when there is something to write. -/
def launch (argv : List (List Char)) (env : List (List Char × List Char)) (source : StdinSource)
    (own : List Char) : Option Child :=
  (remoteCommand argv env).map fun command =>
    let piped := env ≠ [] ∨ source.isData
    if piped then ⟨command, env.flatMap (fun e => e.2 ++ ['\n']) ++ source.rest own⟩
    else
      match source with
      | .inherit => ⟨command, own⟩
      | _ => ⟨command, []⟩

end Ssh

section Quoting

variable {s : List Char} {c : Char}

/-- The word that a quoted argument is. -/
def pieces (s : List Char) : Word :=
  if s ≠ [] ∧ s.all isSafe then s.map .bare else s.map .quoted

theorem isOrdinary_of_isSafe (h : isSafe c = true) : isOrdinary c = true := by
  have hall : (" \t'\"\\&#".toList ++ "|;<>()$`\n".toList).all (fun c => !isSafe c) = true := by
    decide
  have hnot : c ∉ " \t'\"\\&#".toList ++ "|;<>()$`\n".toList := by
    intro hmem
    have hunsafe := List.all_eq_true.mp hall c hmem
    rw [h] at hunsafe
    cases hunsafe
  rw [List.mem_append, not_or] at hnot
  rw [isOrdinary, isOperator, Bool.not_eq_true', Bool.or_eq_false_iff, Bool.eq_false_iff,
    Bool.eq_false_iff]
  exact ⟨fun h => hnot.1 (List.contains_iff_mem.mp h), fun h => hnot.2 (List.contains_iff_mem.mp h)⟩

theorem char_bare_of_isSafe (h : isSafe c = true) : (Piece.bare c).char = some c := by
  have hall : "~*?[".toList.all (fun c => !isSafe c) = true := by decide
  have hnot : ¬"~*?[".toList.contains c = true := by
    intro hmem
    have hunsafe := List.all_eq_true.mp hall c (List.contains_iff_mem.mp hmem)
    rw [h] at hunsafe
    cases hunsafe
  exact if_neg hnot

/-- What stands between the quotes. -/
theorem scan_quotation (s : List Char) (w : Word) (ts : List Token) :
    scan ⟨.single, some w, ts⟩ (s.flatMap fun c => if c = '\'' then "'\\''".toList else [c]) =
      some ⟨.single, some (w ++ s.map .quoted), ts⟩ := by
  induction s generalizing w with
  | nil =>
      rw [List.map_nil, List.append_nil]
      rfl
  | cons c s ih =>
      have hc : scan ⟨.single, some w, ts⟩ (if c = '\'' then "'\\''".toList else [c]) =
          some ⟨.single, some (w ++ [.quoted c]), ts⟩ := by
        by_cases hq : c = '\''
        · rw [if_pos hq, hq]
          rfl
        · rw [if_neg hq, scan_cons, step]
          simp only [if_neg hq]
          rfl
      rw [List.flatMap_cons, scan_append, hc, Option.bind_some, ih, List.append_assoc]
      rfl

/-- An argument is one word, whatever is in it. -/
theorem spells_shellQuote (s : List Char) : Spells (shellQuote s) (pieces s) := by
  rw [shellQuote, pieces]
  split
  · next h =>
      exact spells_ordinary h.1 fun c hc => isOrdinary_of_isSafe (List.all_eq_true.mp h.2 c hc)
  · intro ts
    have hopen : step ⟨.plain, none, ts⟩ '\'' = some ⟨.single, some [], ts⟩ := rfl
    rw [List.cons_append, scan_cons, hopen, Option.bind_some, scan_append, scan_quotation]
    rfl

theorem text_pieces (s : List Char) : text (pieces s) = some s := by
  rw [pieces]
  split
  · next h => exact text_map fun c hc => char_bare_of_isSafe (List.all_eq_true.mp h.2 c hc)
  · exact text_map fun c _ => rfl

theorem pieces_ne_params (s : List Char) : pieces s ≠ [.params] := by
  intro h
  have htext := text_pieces s
  rw [h] at htext
  cases htext

theorem shellQuote_eq_self_iff (s : List Char) : shellQuote s = s ↔ s ≠ [] ∧ s.all isSafe := by
  rw [shellQuote]
  split
  · next h => exact iff_of_true rfl h
  · next h =>
      refine iff_of_false (fun heq => ?_) h
      have hlen := congrArg List.length heq
      have hle : s.length ≤
          (s.flatMap fun c => if c = '\'' then "'\\''".toList else [c]).length := by
        clear h heq hlen
        induction s with
        | nil => exact Nat.le_refl 0
        | cons c s ih =>
            have hpos : 1 ≤ (if c = '\'' then "'\\''".toList else [c]).length := by
              split
              · decide
              · exact Nat.le_refl 1
            rw [List.flatMap_cons, List.length_append, List.length_cons]
            omega
      rw [List.length_append, List.length_cons, List.length_singleton] at hlen
      omega

end Quoting

section Words

variable {d : Dialect} {argv : List (List Char)}

theorem forall₂_spells (argv : List (List Char)) :
    List.Forall₂ Spells (argv.map shellQuote) (argv.map pieces) := by
  rw [List.forall₂_map_left_iff, List.forall₂_map_right_iff, List.forall₂_same]
  exact fun s _ => spells_shellQuote s

theorem mapM_text_pieces (argv : List (List Char)) :
    (argv.map pieces).mapM text = some argv := by
  induction argv with
  | nil => rfl
  | cons a argv ih =>
      rw [List.map_cons, List.mapM_cons, text_pieces, ih]
      rfl

theorem fields_pieces (params argv : List (List Char)) :
    fields params (argv.map pieces) = some argv := by
  have hmap : (argv.map pieces).mapM (field params) = some (argv.map fun a => [a]) := by
    induction argv with
    | nil => rfl
    | cons a argv ih =>
        rw [List.map_cons, List.mapM_cons, field, if_neg (pieces_ne_params a), text_pieces, ih]
        rfl
  rw [fields, hmap, Option.map_some, ← List.flatMap_def, List.flatMap_singleton']

theorem isReserved_pieces (a : List Char) :
    isReserved d (pieces a) = (decide (shellQuote a = a) && d.reserved a) := by
  rw [isReserved, pieces]
  by_cases h : a ≠ [] ∧ a.all isSafe
  · rw [if_pos h, mapM_bareChar, decide_eq_true ((shellQuote_eq_self_iff a).mpr h)]
    simp [h.1]
  · rw [if_neg h, decide_eq_false fun heq => h ((shellQuote_eq_self_iff a).mp heq)]
    cases a with
    | nil => rfl
    | cons c a => rfl

theorem reading_pieces_iff (a : List Char) :
    reading (pieces a) = .word ↔ (shellQuote a = a → '=' ∉ a ∨ a.head? = some '=') := by
  rw [pieces]
  by_cases h : a ≠ [] ∧ a.all isSafe
  · rw [if_pos h, reading_bare_iff, forall_prop_of_true ((shellQuote_eq_self_iff a).mpr h)]
  · have hself : shellQuote a ≠ a := fun heq => h ((shellQuote_eq_self_iff a).mp heq)
    rw [if_neg h, iff_true_right fun heq => absurd heq hself]
    apply reading_of_not_mem
    intro hmem
    obtain ⟨c, -, hc⟩ := List.mem_map.mp hmem
    cases hc

/-- A first word that a shell takes for the name of a command. -/
def IsCommandName (d : Dialect) (a : List Char) : Prop :=
  shellQuote a = a → d.reserved a = false ∧ ('=' ∉ a ∨ a.head? = some '=')

/-- Quoted arguments are what a shell runs, if the first of them can name a command. -/
theorem runs_quoted_iff {a : List Char} :
    runs d ([' '].intercalate ((a :: argv).map shellQuote)) = some (a :: argv) ↔
      IsCommandName d a := by
  have hspells := forall₂_spells (a :: argv)
  have hfields : fields [] (pieces a :: argv.map pieces) = some (a :: argv) :=
    fields_pieces [] (a :: argv)
  rw [runs_iff hspells hfields, isReserved_pieces, reading_pieces_iff, IsCommandName]
  constructor
  · rintro ⟨hreserved, hreading⟩ hself
    rw [decide_eq_true hself, Bool.true_and] at hreserved
    exact ⟨hreserved, hreading hself⟩
  · intro h
    refine ⟨?_, fun hself => (h hself).2⟩
    by_cases hself : shellQuote a = a
    · rw [(h hself).1, Bool.and_false]
    · rw [decide_eq_false hself, Bool.false_and]

end Words

section Prelude

variable {d : Dialect} {v value : List Char}

/-- The tokens of one variable of the prelude. -/
def lineTokens (v : List Char) : List Token :=
  [.word ("IFS=".toList.map .bare), .word ("read".toList.map .bare), .word ("-r".toList.map .bare),
    .word (v.map .bare), .andIf, .word ("export".toList.map .bare), .word (v.map .bare), .andIf]

theorem isEnvName_eq (v : List Char) : isEnvName v = isName v := by
  cases v <;> rfl

theorem isSafe_of_isName (h : isName v = true) : v ≠ [] ∧ ∀ c ∈ v, isSafe c = true := by
  have halnum : ∀ c : Char, (c.isAlphanum || c == '_') = true → isSafe c = true := by
    intro c hc
    rw [isSafe, Bool.or_eq_true_iff]
    rcases Bool.or_eq_true_iff.mp hc with hc | hc
    · exact .inl hc
    · rw [beq_iff_eq.mp hc]
      exact .inr (by decide)
  cases v with
  | nil => cases h
  | cons c v =>
      obtain ⟨hc, hv⟩ := Bool.and_eq_true_iff.mp h
      refine ⟨List.cons_ne_nil c v, fun x hx => ?_⟩
      rcases List.mem_cons.mp hx with rfl | hx
      · apply halnum
        rw [Char.isAlphanum]
        rcases Bool.or_eq_true_iff.mp hc with hc | hc
        · rw [hc]
          rfl
        · rw [hc, Bool.or_true]
      · exact halnum x (List.all_eq_true.mp hv x hx)

theorem spells_name (h : isName v = true) : Spells v (v.map .bare) := by
  obtain ⟨hne, hsafe⟩ := isSafe_of_isName h
  exact spells_ordinary hne fun c hc => isOrdinary_of_isSafe (hsafe c hc)

theorem scan_line (h : isName v = true) (ts : List Token) :
    scan ⟨.plain, none, ts⟩ ("IFS= read -r ".toList ++ v ++ " && export ".toList ++ v ++
      " && ".toList) = some ⟨.plain, none, ts ++ lineTokens v⟩ := by
  have hread : ∀ ts, scan ⟨.plain, none, ts⟩ "IFS= read -r ".toList =
      some ⟨.plain, none, ts ++ [.word ("IFS=".toList.map .bare)] ++
        [.word ("read".toList.map .bare)] ++ [.word ("-r".toList.map .bare)]⟩ := fun ts => rfl
  have hexport : ∀ w ts, scan ⟨.plain, some w, ts⟩ " && export ".toList =
      some ⟨.plain, none, ts ++ [.word w] ++ [.andIf] ++
        [.word ("export".toList.map .bare)]⟩ := fun w ts => rfl
  have hand : ∀ w ts, scan ⟨.plain, some w, ts⟩ " && ".toList =
      some ⟨.plain, none, ts ++ [.word w] ++ [.andIf]⟩ := fun w ts => rfl
  rw [scan_append, scan_append, scan_append, scan_append, hread, Option.bind_some,
    spells_name h, Option.bind_some, hexport, Option.bind_some, spells_name h, Option.bind_some,
    hand]
  simp only [List.append_assoc, lineTokens, List.cons_append, List.nil_append]

theorem scan_lines {vars : List (List Char)} (h : ∀ v ∈ vars, isName v = true) (ts : List Token) :
    scan ⟨.plain, none, ts⟩ (vars.flatMap fun v => "IFS= read -r ".toList ++ v ++
      " && export ".toList ++ v ++ " && ".toList) =
        some ⟨.plain, none, ts ++ vars.flatMap lineTokens⟩ := by
  induction vars generalizing ts with
  | nil =>
      rw [List.flatMap_nil, List.flatMap_nil, List.append_nil]
      rfl
  | cons v vars ih =>
      rw [List.flatMap_cons, List.flatMap_cons, scan_append, scan_line (h v List.mem_cons_self),
        Option.bind_some, ih fun x hx => h x (List.mem_cons_of_mem _ hx), List.append_assoc]

theorem tokens_preludeScript {vars : List (List Char)} (h : ∀ v ∈ vars, isName v = true) :
    tokens (preludeScript vars) = some (vars.flatMap lineTokens ++
      [.word ("exec".toList.map .bare), .word [.params]]) := by
  have hexec : ∀ ts, (scan ⟨.plain, none, ts⟩ "exec \"$@\"".toList).bind finish =
      some (ts ++ [.word ("exec".toList.map .bare)] ++ [.word [.params]]) := fun ts => rfl
  rw [tokens, preludeScript, Scan.start, scan_append, scan_lines h, Option.bind_some, hexec,
    List.append_assoc]
  rfl

/-- What the prelude does for a variable, and at its end. -/
def readCommand (v : List Char) : SimpleCommand :=
  ⟨[("IFS".toList, [])],
    ["read".toList.map .bare, "-r".toList.map .bare, v.map .bare]⟩

def exportCommand (v : List Char) : SimpleCommand :=
  ⟨[], ["export".toList.map .bare, v.map .bare]⟩

def execCommand : SimpleCommand := ⟨[], ["exec".toList.map .bare, [.params]]⟩

theorem isReserved_bare (d : Dialect) {w : List Char} (h : d.reserved w = false) :
    isReserved d (w.map .bare) = false := by
  rw [isReserved, mapM_bareChar]
  simp only [h, Bool.and_false]

theorem conjuncts_line (v : List Char) (ts : List Token) :
    conjuncts (lineTokens v ++ ts) =
      ["IFS=".toList.map .bare, "read".toList.map .bare, "-r".toList.map .bare, v.map .bare] ::
        ["export".toList.map .bare, v.map .bare] :: conjuncts ts := rfl

theorem commands_preludeScript (d : Dialect) {vars : List (List Char)}
    (h : ∀ v ∈ vars, isName v = true) :
    commands d (preludeScript vars) =
      some (vars.flatMap (fun v => [readCommand v, exportCommand v]) ++ [execCommand]) := by
  have hread : ∀ v, parseCommand d ["IFS=".toList.map .bare, "read".toList.map .bare,
      "-r".toList.map .bare, v.map .bare] = some (readCommand v) := by
    intro v
    have hreserved := isReserved_bare d (d.reserved_assignment "IFS=".toList (by decide))
    rw [parseCommand, List.head?_cons, Option.all_some, hreserved]
    rfl
  have hexport : ∀ v, parseCommand d ["export".toList.map .bare, v.map .bare] =
      some (exportCommand v) := by
    intro v
    have hreserved := isReserved_bare d (d.reserved_utility "export" (by decide))
    rw [parseCommand, List.head?_cons, Option.all_some, hreserved]
    rfl
  have hexec : parseCommand d ["exec".toList.map .bare, [.params]] = some execCommand := by
    have hreserved := isReserved_bare d (d.reserved_utility "exec" (by decide))
    rw [parseCommand, List.head?_cons, Option.all_some, hreserved]
    rfl
  rw [commands, tokens_preludeScript h, Option.bind_some]
  clear h
  induction vars with
  | nil =>
      rw [List.flatMap_nil, List.flatMap_nil, List.nil_append, List.nil_append]
      change [["exec".toList.map .bare, [.params]]].mapM (parseCommand d) = _
      rw [List.mapM_cons, hexec]
      rfl
  | cons v vars ih =>
      rw [List.flatMap_cons, List.append_assoc, conjuncts_line, List.mapM_cons, hread,
        List.mapM_cons, hexport, ih]
      rfl

end Prelude

section Running

variable {d : Dialect} {s : State} {v value rest : List Char}

/-- The lines of the variables. -/
def envLines (env : List (List Char × List Char)) : List Char :=
  env.flatMap fun e => e.2 ++ ['\n']

/-- A variable that can be forwarded: it has a name, and its value is one line. -/
structure Forwardable (e : List Char × List Char) : Prop where
  name : isEnvName e.1 = true
  line : '\n' ∉ e.2

/-- A variable that the shell sets only when it is told to. -/
def Settable (d : Dialect) (n : List Char) : Prop := n ≠ "IFS".toList ∧ d.kept n = false

theorem pieces_of_isName (h : isName v = true) : pieces v = v.map .bare := by
  obtain ⟨hne, hsafe⟩ := isSafe_of_isName h
  exact if_pos ⟨hne, List.all_eq_true.mpr hsafe⟩

theorem runCommand_read (h : isName v = true) :
    runCommand d s (readCommand v) =
      if v ≠ "IFS".toList ∧ ¬d.kept v then some (readLine s v) else none := by
  have hwords : (readCommand v).words = ["read".toList, "-r".toList, v].map pieces := by
    rw [List.map_cons, List.map_cons, List.map_cons, pieces_of_isName h]
    rfl
  have hread : runRead d s (readCommand v) ["-r".toList, v] =
      if v ≠ "IFS".toList ∧ ¬d.kept v then some (readLine s v) else none := by
    rw [runRead]
    exact if_congr (by simp only [readCommand, h, true_and]) rfl rfl
  rw [runCommand, hwords, fields_pieces, Option.bind_some, ← hread]
  exact if_pos rfl

theorem runCommand_export (h : isName v = true) :
    runCommand d s (exportCommand v) =
      some (.ends { s with
        exported := fun n => n = v || s.exported n } 0) := by
  have hwords : (exportCommand v).words = ["export".toList, v].map pieces := by
    rw [List.map_cons, List.map_cons, pieces_of_isName h]
    rfl
  have hexport : runExport s (exportCommand v) [v] = some (.ends { s with
      exported := fun n => n = v || s.exported n } 0) := if_pos ⟨rfl, h⟩
  rw [runCommand, hwords, fields_pieces, Option.bind_some, ← hexport]
  exact (if_neg (by decide)).trans (if_pos rfl)

/-- A line of the input becomes the value of a variable. -/
theorem runAll_line (h : Forwardable (v, value)) (hset : Settable d v)
    (hstdin : s.stdin = value ++ '\n' :: rest) (cs : List SimpleCommand) :
    runAll d s (readCommand v :: exportCommand v :: cs) =
      runAll d { s.give v value with
        stdin := rest } cs := by
  have hname : isName v = true := (isEnvName_eq v).symm.trans h.name
  have hline : ∀ c ∈ value, (c == '\n') = false := by
    intro c hc
    rw [beq_eq_false_iff_ne]
    rintro rfl
    exact h.line hc
  have hkept : v ≠ "IFS".toList ∧ ¬d.kept v = true := by
    rw [hset.2]
    exact ⟨hset.1, Bool.false_ne_true⟩
  rw [runAll, runCommand_read hname, if_pos hkept, readLine, hstdin,
    Text.splitOnce_append hline rfl]
  dsimp only
  rw [runAll, runCommand_export hname]
  rfl

theorem environment_stdin (s : State) (stdin : List Char) :
    State.environment { s with
      stdin := stdin } = s.environment := rfl

/-- The prelude sets every variable and leaves the rest of the input. -/
theorem runAll_prelude {env : List (List Char × List Char)} (h : ∀ e ∈ env, Forwardable e)
    (hset : ∀ e ∈ env, Settable d e.1) (s : State) (rest : List Char) (cs : List SimpleCommand) :
    ∃ s', runAll d { s with
        stdin := envLines env ++ rest } ((env.map Prod.fst).flatMap
          (fun v => [readCommand v, exportCommand v]) ++ cs) = runAll d s' cs ∧
      s'.environment = s.environment.setAll env ∧ s'.params = s.params ∧ s'.stdin = rest := by
  induction env generalizing s with
  | nil => exact ⟨_, rfl, rfl, rfl, rfl⟩
  | cons e env ih =>
      obtain ⟨v, value⟩ := e
      obtain ⟨s', hrun, henv, hparams, hstdin⟩ := ih (fun x hx => h x (List.mem_cons_of_mem _ hx))
        (fun x hx => hset x (List.mem_cons_of_mem _ hx)) (s.give v value)
      refine ⟨s', ?_, ?_, hparams, hstdin⟩
      · have hlines : envLines ((v, value) :: env) ++ rest =
            value ++ '\n' :: (envLines env ++ rest) := by
          rw [envLines, List.flatMap_cons, List.append_assoc, List.append_assoc]
          rfl
        rw [List.map_cons, List.flatMap_cons, hlines, ← hrun]
        exact runAll_line (h _ List.mem_cons_self) (hset _ List.mem_cons_self) rfl _
      · rw [henv, environment_give]
        rfl

/-- With a variable that the shell keeps for itself, the standard leaves the outcome open. -/
theorem runAll_kept {env : List (List Char × List Char)} (h : ∀ e ∈ env, Forwardable e)
    (hkept : ∃ e ∈ env, ¬Settable d e.1) (s : State) (rest : List Char)
    (cs : List SimpleCommand) :
    runAll d { s with
      stdin := envLines env ++ rest } ((env.map Prod.fst).flatMap
        (fun v => [readCommand v, exportCommand v]) ++ cs) = none := by
  induction env generalizing s with
  | nil =>
      obtain ⟨e, he, -⟩ := hkept
      cases he
  | cons e env ih =>
      obtain ⟨v, value⟩ := e
      have hlines : envLines ((v, value) :: env) ++ rest =
          value ++ '\n' :: (envLines env ++ rest) := by
        rw [envLines, List.flatMap_cons, List.append_assoc, List.append_assoc]
        rfl
      rw [List.map_cons, List.flatMap_cons, hlines]
      by_cases hv : Settable d v
      · have hrest : ∃ e ∈ env, ¬Settable d e.1 := by
          obtain ⟨e, he, hnot⟩ := hkept
          rcases List.mem_cons.mp he with rfl | he
          · exact absurd hv hnot
          · exact ⟨e, he, hnot⟩
        have hrun := ih (fun x hx => h x (List.mem_cons_of_mem _ hx)) hrest (s.give v value)
        rw [← hrun]
        exact runAll_line (h _ List.mem_cons_self) hv rfl _
      · have hname : isName v = true :=
          (isEnvName_eq v).symm.trans (h _ List.mem_cons_self).name
        have hnot : ¬(v ≠ "IFS".toList ∧ ¬d.kept v = true) := fun hok =>
          hv ⟨hok.1, Bool.not_eq_true _ ▸ hok.2⟩
        rw [List.append_assoc, List.cons_append, runAll, runCommand_read hname, if_neg hnot]

end Running

section Delivery

/-- A child of `launch` runs the arguments, each secret in its variable and the rest of the input
unread, and its command says nothing of the secrets. -/
structure Delivers (d : Dialect) (argv : List (List Char)) (env : List (List Char × List Char)) :
    Prop where
  split : ∃ cmd words, remoteCommand argv env = some cmd ∧ plainWords cmd = some words
  direct : env = [] → ∀ source own, ∃ child, launch argv env source own = some child ∧
    runs d child.command = some argv ∧ child.stdin = source.rest own
  prelude : env ≠ [] → ∀ source own inherited, ∃ child args env',
    launch argv env source own = some child ∧ runs d child.command = some ("sh".toList :: args) ∧
      invoke d inherited args child.stdin = some (.executes argv env' (source.rest own)) ∧
      ∀ e ∈ env, env' e.1 = some e.2
  hidden : ∀ env', env'.map Prod.fst = env.map Prod.fst →
    remoteCommand argv env' = remoteCommand argv env

/-- The first argument is taken for a command and no option of `exec`, and the variables are plain
ones, with one value each. -/
structure Unmistakable (d : Dialect) (argv : List (List Char))
    (env : List (List Char × List Char)) : Prop where
  direct : env = [] → ∀ a ∈ argv.head?, IsCommandName d a
  prelude : env ≠ [] → (∀ a ∈ argv.head?, a.head? ≠ some '-') ∧ (∀ e ∈ env, Settable d e.1) ∧
    ∀ e ∈ env, ∀ e' ∈ env, e.1 = e'.1 → e.2 = e'.2

variable {d : Dialect} {argv : List (List Char)} {env : List (List Char × List Char)}

/-- The words of the command: the arguments, or those of a shell that has them as its own. -/
def remoteWords (argv : List (List Char)) (env : List (List Char × List Char)) :
    List (List Char) :=
  if env = [] then argv
  else ["sh".toList, "-c".toList, preludeScript (env.map Prod.fst), "sh".toList] ++ argv

theorem remoteCommand_eq (henv : ∀ e ∈ env, Forwardable e) :
    remoteCommand argv env =
      some ([' '].intercalate ((remoteWords argv env).map shellQuote)) := by
  rw [remoteCommand, remoteWords]
  split
  · rfl
  · have hnames : (env.map Prod.fst).all isEnvName = true := by
      rw [List.all_eq_true]
      intro n hn
      obtain ⟨e, he, rfl⟩ := List.mem_map.mp hn
      exact (henv e he).name
    rw [stdinPrelude, if_pos hnames, List.map_append]
    rfl

theorem launch_eq (henv : ∀ e ∈ env, Forwardable e) (source : StdinSource) (own : List Char) :
    launch argv env source own =
      some ⟨[' '].intercalate ((remoteWords argv env).map shellQuote),
        envLines env ++ source.rest own⟩ := by
  rw [launch, remoteCommand_eq henv, Option.map_some, envLines]
  by_cases hnil : env = []
  · subst hnil
    cases source <;> rfl
  · rw [if_pos (.inl hnil)]

theorem split_remoteCommand (henv : ∀ e ∈ env, Forwardable e) :
    ∃ cmd words, remoteCommand argv env = some cmd ∧ plainWords cmd = some words :=
  ⟨_, remoteWords argv env, remoteCommand_eq henv,
    plainWords_spells (forall₂_spells _) (mapM_text_pieces _)⟩

theorem hidden_remoteCommand (env' : List (List Char × List Char))
    (h : env'.map Prod.fst = env.map Prod.fst) :
    remoteCommand argv env' = remoteCommand argv env := by
  have hnil : env' = [] ↔ env = [] := by
    rw [← List.length_eq_zero_iff, ← List.length_map Prod.fst, h, List.length_map,
      List.length_eq_zero_iff]
  rw [remoteCommand, remoteCommand, h]
  exact if_congr hnil rfl rfl

/-- What the shell makes of the prelude. -/
theorem invoke_prelude (henv : ∀ e ∈ env, Forwardable e) {a : List Char} (inherited : Env)
    (rest : List Char) :
    (∃ env', invoke d inherited ("-c".toList :: preludeScript (env.map Prod.fst) ::
        "sh".toList :: a :: argv) (envLines env ++ rest) =
          some (.executes (a :: argv) env' rest) ∧ ∀ e ∈ env, env' e.1 = some e.2) ↔
      a.head? ≠ some '-' ∧ (∀ e ∈ env, Settable d e.1) ∧
        ∀ e ∈ env, ∀ e' ∈ env, e.1 = e'.1 → e.2 = e'.2 := by
  have hnames : ∀ v ∈ env.map Prod.fst, isName v = true := by
    intro n hn
    obtain ⟨e, he, rfl⟩ := List.mem_map.mp hn
    exact (isEnvName_eq _).symm.trans (henv e he).name
  let s : State := ⟨inherited, fun n => (inherited n).isSome, a :: argv, []⟩
  have hinvoke : invoke d inherited ("-c".toList :: preludeScript (env.map Prod.fst) ::
      "sh".toList :: a :: argv) (envLines env ++ rest) = runAll d { s with
        stdin := envLines env ++ rest } ((env.map Prod.fst).flatMap
          (fun v => [readCommand v, exportCommand v]) ++ [execCommand]) := by
    rw [invoke, if_pos rfl, commands_preludeScript d hnames]
    rfl
  rw [hinvoke]
  by_cases hset : ∀ e ∈ env, Settable d e.1
  · obtain ⟨s', hrun, henvironment, hparams, hstdin⟩ :=
      runAll_prelude henv hset s rest [execCommand]
    have hexec : runCommand d s' execCommand =
        if a.head? ≠ some '-' then some (.replaces (a :: argv)) else none := by
      have hfields : fields s'.params execCommand.words =
          some ("exec".toList :: a :: argv) := by
        have hparams' : s'.params = a :: argv := hparams
        rw [← List.append_nil (a :: argv), ← hparams']
        rfl
      rw [runCommand, hfields, Option.bind_some]
      have hdash : runExec execCommand (a :: argv) =
          if a.head? ≠ some '-' then some (.replaces (a :: argv)) else none :=
        if_congr (and_iff_right rfl) rfl rfl
      rw [← hdash]
      exact (if_neg (by decide)).trans ((if_neg (by decide)).trans (if_pos rfl))
    rw [hrun, runAll, hexec, and_iff_right hset]
    by_cases ha : a.head? ≠ some '-'
    · rw [if_pos ha, and_iff_right ha, ← Env.setAll_iff s.environment, ← henvironment]
      constructor
      · rintro ⟨env', hexecutes, hvalues⟩
        obtain ⟨-, henv', -⟩ := Outcome.executes.inj (Option.some.inj hexecutes)
        rw [henv']
        exact hvalues
      · intro hvalues
        refine ⟨s'.environment, ?_, hvalues⟩
        rw [← hstdin]
    · rw [if_neg ha]
      exact iff_of_false (fun h => nomatch h.choose_spec.1) fun h => ha h.1
  · rw [runAll_kept henv (by simpa using hset)]
    exact iff_of_false (fun h => nomatch h.choose_spec.1) fun h => hset h.2.1

/-- Every argument list arrives, and the secrets with it, exactly if nothing in it can be mistaken
for something else. -/
theorem delivers_iff (d : Dialect) (hargv : argv ≠ []) (henv : ∀ e ∈ env, Forwardable e) :
    Delivers d argv env ↔ Unmistakable d argv env := by
  obtain ⟨a, argv, rfl⟩ := List.exists_cons_of_ne_nil hargv
  have hhead : ∀ p : List Char → Prop, (∀ x ∈ (a :: argv).head?, p x) ↔ p a := by
    intro p
    rw [List.head?_cons]
    exact ⟨fun h => h a rfl, fun h x hx => Option.some.inj hx ▸ h⟩
  have hsh : IsCommandName d "sh".toList := fun _ =>
    ⟨d.reserved_utility "sh" (by decide), .inl (by decide)⟩
  let args := "-c".toList :: preludeScript (env.map Prod.fst) :: "sh".toList :: a :: argv
  have hwords : runs d ([' '].intercalate (("sh".toList :: args).map shellQuote)) =
      some ("sh".toList :: args) := runs_quoted_iff.mpr hsh
  constructor
  · intro h
    refine ⟨fun hnil => ?_, fun hne => ?_⟩
    · obtain ⟨child, hchild, hruns, -⟩ := h.direct hnil .null []
      rw [launch_eq henv] at hchild
      rw [← Option.some.inj hchild, remoteWords, if_pos hnil] at hruns
      rw [hhead]
      exact runs_quoted_iff.mp hruns
    · obtain ⟨child, args', env', hchild, hruns, hinvoke, hvalues⟩ :=
        h.prelude hne .null [] fun _ => none
      rw [launch_eq henv, remoteWords, if_neg hne] at hchild
      rw [← Option.some.inj hchild] at hruns hinvoke
      obtain ⟨-, rfl⟩ := List.cons.inj (Option.some.inj (hruns.symm.trans hwords))
      rw [hhead]
      exact (invoke_prelude henv _ _).mp ⟨env', hinvoke, hvalues⟩
  · intro h
    refine ⟨split_remoteCommand henv, fun hnil source own => ?_,
      fun hne source own inherited => ?_, hidden_remoteCommand⟩
    · have hname := h.direct hnil
      rw [hhead] at hname
      refine ⟨_, launch_eq henv source own, ?_, ?_⟩
      · rw [remoteWords, if_pos hnil]
        exact runs_quoted_iff.mpr hname
      · rw [hnil]
        rfl
    · have hplain := h.prelude hne
      rw [hhead] at hplain
      obtain ⟨env', hinvoke, hvalues⟩ :=
        (invoke_prelude henv inherited (source.rest own)).mpr hplain
      refine ⟨_, args, env', launch_eq henv source own, ?_, hinvoke, hvalues⟩
      rw [remoteWords, if_neg hne]
      exact hwords

/-- A power command with its password. -/
theorem delivers_iff_password :
    Delivers posix ["paniolo".toList, "power-state".toList, "nuc".toList]
        [("AMT_PASSWORD".toList, "hunter 2".toList)] ↔
      Unmistakable posix ["paniolo".toList, "power-state".toList, "nuc".toList]
        [("AMT_PASSWORD".toList, "hunter 2".toList)] := by
  refine delivers_iff posix (by decide) fun e he => ?_
  rw [List.mem_singleton.mp he]
  exact ⟨by decide, by decide⟩

/-- A program whose path begins like an assignment is not run, and its first argument is. -/
theorem not_delivers_assignment :
    ¬Delivers posix ["lab=1/paniolo".toList, "discover".toList] [] := by
  intro h
  obtain ⟨child, hchild, hruns, -⟩ := h.direct rfl .null []
  have hlaunch : launch ["lab=1/paniolo".toList, "discover".toList] [] .null [] =
      some ⟨"lab=1/paniolo discover".toList, []⟩ := by decide
  rw [← Option.some.inj (hlaunch.symm.trans hchild)] at hruns
  exact absurd hruns (by decide)

/-- An input that ends within the lines of the variables: nothing is run. -/
theorem invoke_cut {before after : List (List Char × List Char)} {v part : List Char}
    (hbefore : ∀ e ∈ before, Forwardable e) (hafter : ∀ e ∈ after, Forwardable e)
    (hset : ∀ e ∈ before, Settable d e.1) (hv : isEnvName v = true) (hvset : Settable d v)
    (hpart : '\n' ∉ part) (inherited : Env) :
    invoke d inherited ("-c".toList :: preludeScript ((before.map Prod.fst) ++ v ::
      after.map Prod.fst) :: "sh".toList :: argv) (envLines before ++ part) =
        some (.exits 1) := by
  have hname : isName v = true := (isEnvName_eq v).symm.trans hv
  have hnames : ∀ n ∈ before.map Prod.fst ++ v :: after.map Prod.fst, isName n = true := by
    intro n hn
    rw [List.mem_append, List.mem_cons] at hn
    rcases hn with hn | rfl | hn
    · obtain ⟨e, he, rfl⟩ := List.mem_map.mp hn
      exact (isEnvName_eq _).symm.trans (hbefore e he).name
    · exact hname
    · obtain ⟨e, he, rfl⟩ := List.mem_map.mp hn
      exact (isEnvName_eq _).symm.trans (hafter e he).name
  have hnone : Text.splitOnce (· == '\n') part = none :=
    Text.splitOnce_none fun c hc => by
      rw [beq_eq_false_iff_ne]
      rintro rfl
      exact hpart hc
  have hkept : v ≠ "IFS".toList ∧ ¬d.kept v = true := by
    rw [hvset.2]
    exact ⟨hvset.1, Bool.false_ne_true⟩
  let s : State := ⟨inherited, fun n => (inherited n).isSome, argv, []⟩
  obtain ⟨s', hrun, -, -, hstdin⟩ := runAll_prelude hbefore hset s part
    (readCommand v :: exportCommand v :: ((after.map Prod.fst).flatMap
      (fun v => [readCommand v, exportCommand v]) ++ [execCommand]))
  have hcut : runAll d s' (readCommand v :: exportCommand v :: ((after.map Prod.fst).flatMap
      (fun v => [readCommand v, exportCommand v]) ++ [execCommand])) = some (.exits 1) := by
    rw [runAll, runCommand_read hname, if_pos hkept, readLine, hstdin, hnone]
  rw [invoke, if_pos rfl, commands_preludeScript d hnames, Option.bind_some, List.flatMap_append,
    List.flatMap_cons, List.append_assoc]
  exact hrun.trans hcut

end Delivery

section Forwarding

variable {lookup : List Char → Option (List UInt8)} {names : List (List Char)}
  {env : List (List Char × List Char)}

/-- What is collected is of the names, each with the one value that it has. -/
theorem mem_of_collectForwarded (h : collectForwarded lookup names = .ok env)
    {e : List Char × List Char} (he : e ∈ env) :
    e.1 ∈ names ∧ '\n' ∉ e.2 ∧ (lookup e.1).bind intoString = some e.2 := by
  induction names generalizing env with
  | nil =>
      cases h
      cases he
  | cons name names ih =>
      rw [collectForwarded] at h
      cases hlookup : lookup name with
      | none =>
          rw [hlookup] at h
          obtain ⟨hmem, hrest⟩ := ih h he
          exact ⟨List.mem_cons_of_mem _ hmem, hrest⟩
      | some raw =>
          rw [hlookup] at h
          cases hvalue : intoString raw with
          | none =>
              simp only [hvalue] at h
              cases h
          | some value =>
              simp only [hvalue] at h
              by_cases hline : value.contains '\n' = true
              · rw [if_pos hline] at h
                cases h
              · rw [if_neg hline] at h
                cases hrest : collectForwarded lookup names with
                | error msg =>
                    rw [hrest] at h
                    cases h
                | ok rest =>
                    rw [hrest] at h
                    cases h
                    rcases List.mem_cons.mp he with rfl | he
                    · refine ⟨List.mem_cons_self, fun hmem => ?_, ?_⟩
                      · exact hline (List.contains_iff_mem.mpr hmem)
                      · rw [hlookup]
                        exact hvalue
                    · obtain ⟨hmem, hrest⟩ := ih hrest he
                      exact ⟨List.mem_cons_of_mem _ hmem, hrest⟩

/-- The secrets that are forwarded cannot be mistaken for anything else. -/
theorem unmistakable_forwarded (h : collectForwarded lookup forwardedEnvNames = .ok env)
    {a : List Char} {argv : List (List Char)} (ha : IsCommandName posix a)
    (hdash : a.head? ≠ some '-') :
    (∀ e ∈ env, Forwardable e) ∧ Unmistakable posix (a :: argv) env := by
  have hname : ∀ e ∈ env, e.1 = "AMT_PASSWORD".toList := fun e he =>
    List.mem_singleton.mp (mem_of_collectForwarded h he).1
  refine ⟨fun e he => ⟨?_, (mem_of_collectForwarded h he).2.1⟩, fun _ x hx => ?_, fun _ => ?_⟩
  · rw [hname e he]
    decide
  · rw [← Option.some.inj hx]
    exact ha
  · refine ⟨fun x hx => ?_, fun e he => ?_, fun e he e' he' heq => ?_⟩
    · rw [← Option.some.inj hx]
      exact hdash
    · rw [hname e he]
      exact ⟨by decide, by decide⟩
    · have hvalue := (mem_of_collectForwarded h he).2.2
      rw [heq, (mem_of_collectForwarded h he').2.2] at hvalue
      exact (Option.some.inj hvalue).symm

end Forwarding

end Cli

end Paniolo
