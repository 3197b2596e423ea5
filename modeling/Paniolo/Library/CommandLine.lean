import Mathlib.Data.List.Basic

/-!
# Command lines

How a tree of commands reads a list of arguments: options by their long or
short name, the value of an option in the same argument or in the next one,
subcommands, positional arguments, `--`, and a last argument that takes the
rest as it stands. A value in an argument of its own may not look like an
option. `run_pieces` reads a line that was written option by option.
-/

namespace Paniolo

namespace CommandLine

/-- What an argument looks like before any command is known. -/
inductive Token where
  | escape
  | long (name : String) (value : Option String)
  | short (chars : List Char)
  | plain
deriving DecidableEq

/-- A long name and what follows its first `=`. -/
def longToken (body : List Char) : Token :=
  .long (String.ofList (body.takeWhile (· != '=')))
    (((body.dropWhile (· != '=')).tail?).map String.ofList)

/-- A lone `-` is a word. -/
def token (arg : String) : Token :=
  match arg.toList with
  | ['-', '-'] => .escape
  | '-' :: '-' :: body => longToken body
  | '-' :: c :: chars => .short (c :: chars)
  | _ => .plain

/-- An argument that an option in front of it can have as its value. -/
def isValue (arg : String) : Bool := token arg == .plain

/-- A switch is there or not; help ends the run. -/
inductive Kind where
  | switch
  | value
  | help
deriving DecidableEq

/-- An option; `repeats` if it may be given again, the later one counting. -/
structure Opt where
  id : String
  long : Option String
  short : Option Char
  kind : Kind
  repeats : Bool

/-- A command: its options, its positional arguments, the argument that takes the rest with its
hyphens, and its subcommands. -/
inductive Command where
  | mk (opts : List Opt) (positionals : List String) (trailing : Bool)
      (subs : List (String × Command))

namespace Command

def opts : Command → List Opt
  | mk opts _ _ _ => opts

def positionals : Command → List String
  | mk _ positionals _ _ => positionals

def trailing : Command → Bool
  | mk _ _ trailing _ => trailing

def subs : Command → List (String × Command)
  | mk _ _ _ subs => subs

def byLong (cmd : Command) (name : String) : Option Opt :=
  cmd.opts.find? fun o => o.long == some name

def byShort (cmd : Command) (c : Char) : Option Opt :=
  cmd.opts.find? fun o => o.short == some c

end Command

/-- What one command of the line was given. -/
structure Level where
  values : String → Option String
  switches : String → Bool
  filled : Nat
  trailing : List String

namespace Level

def empty : Level := ⟨fun _ => none, fun _ => false, 0, []⟩

def setValue (lv : Level) (id v : String) : Level :=
  { lv with values := fun k => if k = id then some v else lv.values k }

def setSwitch (lv : Level) (id : String) : Level :=
  { lv with switches := fun k => if k = id then true else lv.switches k }

/-- An option may be given once. -/
def giveValue (lv : Level) (o : Opt) (v : String) : Option Level :=
  if (lv.values o.id).isSome && !o.repeats then none else some (lv.setValue o.id v)

def giveSwitch (lv : Level) (o : Opt) : Option Level :=
  if lv.switches o.id && !o.repeats then none else some (lv.setSwitch o.id)

/-- The next positional argument, or one more of the rest. -/
def addWord (lv : Level) (cmd : Command) (word : String) : Option Level :=
  match cmd.positionals[lv.filled]? with
  | some id => some { lv.setValue id word with
      filled := lv.filled + 1 }
  | none => if cmd.trailing then some { lv with trailing := lv.trailing ++ [word] } else none

/-- Arguments that are words whatever they look like. -/
def addWords (lv : Level) (cmd : Command) : List String → Option Level
  | [] => some lv
  | word :: words => (lv.addWord cmd word).bind fun lv => lv.addWords cmd words

/-- The positional arguments are there and the next word begins the rest. -/
def atTrailing (lv : Level) (cmd : Command) : Bool :=
  cmd.trailing && cmd.positionals.length ≤ lv.filled

end Level

/-- What one argument does. -/
inductive Step where
  /-- The next argument is read as this one was. -/
  | next (lv : Level)
  /-- The next argument is the value of the option. -/
  | need (o : Opt) (lv : Level)
  /-- All arguments after it are words. -/
  | verbatim (lv : Level)
  /-- The arguments after it are those of the subcommand. -/
  | enter (cmd : Command)

/-- Short options that stand together; the first with a value has what is left of them. -/
def cluster (cmd : Command) (lv : Level) : List Char → Option Step
  | [] => some (.next lv)
  | c :: chars =>
      match cmd.byShort c with
      | none => none
      | some o =>
          match o.kind with
          | .help => none
          | .switch => (lv.giveSwitch o).bind fun lv => cluster cmd lv chars
          | .value =>
              match chars with
              | [] => some (.need o lv)
              | '=' :: v => (lv.giveValue o (String.ofList v)).map .next
              | v => (lv.giveValue o (String.ofList v)).map .next

def longOption (lv : Level) (o : Opt) (value : Option String) : Option Step :=
  match o.kind, value with
  | .switch, none => (lv.giveSwitch o).map .next
  | .value, none => some (.need o lv)
  | .value, some v => (lv.giveValue o v).map .next
  | _, _ => none

/-- Something that looks like an option and is none: the rest may begin with it. -/
def unknown (cmd : Command) (lv : Level) (arg : String) : Option Step :=
  if lv.atTrailing cmd then (lv.addWord cmd arg).map .verbatim else none

def step (cmd : Command) (lv : Level) (arg : String) : Option Step :=
  match token arg with
  | .escape => some (.verbatim lv)
  | .long name value =>
      match cmd.byLong name with
      | some o => longOption lv o value
      | none => unknown cmd lv arg
  | .short chars =>
      if lv.atTrailing cmd && chars.any fun c => (cmd.byShort c).isNone then unknown cmd lv arg
      else cluster cmd lv chars
  | .plain =>
      match cmd.subs.lookup arg with
      | some sub => some (.enter sub)
      | none =>
          (lv.addWord cmd arg).map (if lv.atTrailing cmd then .verbatim else .next)

/-- What a line was read as: the level of the first command, and each subcommand with its. -/
structure Matches where
  top : Level
  subs : List (String × Level)

/-- An option that every command has counts where it stands deepest. -/
def Matches.globalValue (m : Matches) (id : String) : Option String :=
  m.subs.foldl (fun v s => (s.2.values id).or v) (m.top.values id)

def Matches.globalSwitch (m : Matches) (id : String) : Bool :=
  m.subs.foldl (fun b s => s.2.switches id || b) (m.top.switches id)

/-- The subcommand that a line names. -/
def Matches.path (m : Matches) : List String := m.subs.map Prod.fst

/-- What that subcommand was given. -/
def Matches.last (m : Matches) : Level := ((m.subs.map Prod.snd).getLast?).getD m.top

/-- The arguments of one command and of the subcommands that follow. -/
def run (cmd : Command) (lv : Level) : List String → Option Matches
  | [] => some ⟨lv, []⟩
  | arg :: args =>
      match step cmd lv arg with
      | none => none
      | some (.next lv) => run cmd lv args
      | some (.need o lv) =>
          match args with
          | [] => none
          | v :: args =>
              if isValue v then (lv.giveValue o v).bind fun lv => run cmd lv args else none
      | some (.verbatim lv) => (lv.addWords cmd args).map (⟨·, []⟩)
      | some (.enter sub) =>
          (run sub .empty args).map fun m => ⟨lv, (arg, m.top) :: m.subs⟩

/-- An option of a line with its value, if it has one to give. -/
def optArg (flag : String) (v : Option String) : List String :=
  match v with
  | some v => [flag, v]
  | none => []

/-- A switch of a line, if it is on. -/
def switchArg (flag : String) (on : Bool) : List String := if on then [flag] else []

/-- The command at the end of a path of subcommands. -/
def Command.follow (cmd : Command) : List String → Option Command
  | [] => some cmd
  | name :: path => (cmd.subs.lookup name).bind fun sub => sub.follow path

/-- A path of subcommands that are given nothing on the way. -/
def descent (m : Matches) : List String → List (String × Level)
  | [] => m.subs
  | [name] => (name, m.top) :: m.subs
  | name :: path => (name, .empty) :: descent m path

/-! ### Words and values -/

theorem isValue_iff {arg : String} :
    isValue arg = true ↔ arg.toList.head? ≠ some '-' ∨ arg = "-" := by
  have hdash : arg = "-" ↔ arg.toList = ['-'] := by
    constructor
    · rintro rfl
      rfl
    · exact fun h => String.toList_inj.mp h
  rw [isValue, beq_iff_eq, token, hdash]
  split
  · next h => simp [h]
  · next h => simp [h, longToken]
  · next h => simp [h]
  · next h₁ h₂ h₃ =>
      simp only [true_iff]
      rcases hl : arg.toList with _ | ⟨c, _ | ⟨d, l⟩⟩
      · exact .inl (by simp)
      · by_cases hc : c = '-'
        · exact .inr (by rw [hc])
        · exact .inl (by simpa using hc)
      · refine .inl fun hc => ?_
        cases hc
        exact h₃ d l hl

theorem isValue_of_head {arg : String} (h : arg.toList.head? ≠ some '-') : isValue arg = true :=
  isValue_iff.mpr (.inl h)

/-! ### One argument -/

theorem run_next {cmd : Command} {lv lv' : Level} {arg : String}
    (h : step cmd lv arg = some (.next lv')) (args : List String) :
    run cmd lv (arg :: args) = run cmd lv' args := by
  rw [run, h]

theorem run_need {cmd : Command} {lv lv' : Level} {arg : String} {o : Opt}
    (h : step cmd lv arg = some (.need o lv')) (v : String) (args : List String) :
    run cmd lv (arg :: v :: args) =
      if isValue v then (lv'.giveValue o v).bind fun lv => run cmd lv args else none := by
  rw [run, h]

theorem run_verbatim {cmd : Command} {lv lv' : Level} {arg : String}
    (h : step cmd lv arg = some (.verbatim lv')) (args : List String) :
    run cmd lv (arg :: args) = (lv'.addWords cmd args).map (⟨·, []⟩) := by
  rw [run, h]

theorem run_enter {cmd sub : Command} {lv : Level} {arg : String}
    (h : step cmd lv arg = some (.enter sub)) (args : List String) :
    run cmd lv (arg :: args) =
      (run sub .empty args).map fun m => ⟨lv, (arg, m.top) :: m.subs⟩ := by
  rw [run, h]

/-- Once the positional arguments are there, a word is one more of the rest. -/
theorem Level.addWord_of_atTrailing {cmd : Command} {lv : Level} (ht : lv.atTrailing cmd = true)
    (word : String) :
    lv.addWord cmd word = some { lv with trailing := lv.trailing ++ [word] } := by
  rw [atTrailing, Bool.and_eq_true, decide_eq_true_eq] at ht
  have hnone : cmd.positionals[lv.filled]? = none := List.getElem?_eq_none ht.2
  rw [addWord, hnone]
  exact if_pos ht.1

theorem Level.addWords_of_atTrailing {cmd : Command} {lv : Level} (ht : lv.atTrailing cmd = true)
    (words : List String) :
    lv.addWords cmd words = some { lv with trailing := lv.trailing ++ words } := by
  induction words generalizing lv with
  | nil => rw [addWords, List.append_nil]
  | cons word words ih =>
      have hnext : Level.atTrailing { lv with trailing := lv.trailing ++ [word] } cmd = true := ht
      rw [addWords, Level.addWord_of_atTrailing ht, Option.bind_some, ih hnext, List.append_assoc,
        List.singleton_append]

/-- A line of words that are the rest. -/
theorem run_trailing {cmd : Command} {lv : Level} (ht : lv.atTrailing cmd = true)
    (hsubs : cmd.subs = []) {word : String} (hplain : isValue word = true) (words : List String) :
    run cmd lv (word :: words) =
      some ⟨{ lv with trailing := lv.trailing ++ word :: words }, []⟩ := by
  have hnext : Level.atTrailing { lv with trailing := lv.trailing ++ [word] } cmd = true := ht
  have hstep : step cmd lv word =
      some (.verbatim { lv with trailing := lv.trailing ++ [word] }) := by
    rw [step, eq_of_beq hplain]
    simp only [hsubs, List.lookup_nil, ht, if_true, Level.addWord_of_atTrailing ht, Option.map_some]
  rw [run_verbatim hstep, Level.addWords_of_atTrailing hnext, List.append_assoc,
    List.singleton_append]
  rfl

/-- A path of subcommands leads to the last one. -/
theorem run_path {cmd sub : Command} {name : String} {path : List String}
    (hplain : ∀ n ∈ name :: path, isValue n = true) (h : cmd.follow (name :: path) = some sub)
    (lv : Level) (rest : List String) :
    run cmd lv (name :: path ++ rest) =
      (run sub .empty rest).map fun m => ⟨lv, descent m (name :: path)⟩ := by
  induction path generalizing cmd name lv with
  | nil =>
      obtain ⟨next, hnext, hsub⟩ := Option.bind_eq_some_iff.mp h
      cases hsub
      have hstep : step cmd lv name = some (.enter sub) := by
        rw [step, eq_of_beq (hplain name List.mem_cons_self)]
        simp only [hnext]
      exact run_enter hstep rest
  | cons second path ih =>
      obtain ⟨next, hnext, hsub⟩ := Option.bind_eq_some_iff.mp h
      have hstep : step cmd lv name = some (.enter next) := by
        rw [step, eq_of_beq (hplain name List.mem_cons_self)]
        simp only [hnext]
      have htail := ih (fun n hn => hplain n (List.mem_cons_of_mem name hn)) hsub .empty
      rw [List.cons_append, run_enter hstep, htail, Option.map_map]
      rfl

/-! ### A line written option by option -/

/-- One option of a line: with the value it is given, or a switch. -/
inductive Piece where
  | value (flag : String) (o : Opt) (v : Option String)
  | switch (flag : String) (o : Opt) (on : Bool)

namespace Piece

def id : Piece → String
  | value _ o _ => o.id
  | switch _ o _ => o.id

def args : Piece → List String
  | value flag _ v => optArg flag v
  | switch flag _ on => switchArg flag on

/-- What the piece adds to a level. -/
def give (lv : Level) : Piece → Level
  | value _ o (some v) => lv.setValue o.id v
  | value _ _ none => lv
  | switch _ o true => lv.setSwitch o.id
  | switch _ _ false => lv

/-- The value is one that an argument of its own can have. -/
def fits : Piece → Bool
  | value _ _ v => v.all isValue
  | switch _ _ _ => true

/-- The command knows the flag as this option. -/
def Known (cmd : Command) : Piece → Prop
  | value flag o _ => ∀ lv, step cmd lv flag = some (.need o lv)
  | switch flag o _ => ∀ lv, step cmd lv flag = (lv.giveSwitch o).map .next

end Piece

/-- The option has not been given yet. -/
def Level.Fresh (lv : Level) (id : String) : Prop := lv.values id = none ∧ lv.switches id = false

theorem Level.fresh_empty (id : String) : Level.empty.Fresh id := ⟨rfl, rfl⟩

theorem Level.giveValue_of_fresh {lv : Level} {o : Opt} (h : lv.Fresh o.id) (v : String) :
    lv.giveValue o v = some (lv.setValue o.id v) := by
  rw [giveValue, h.1]
  rfl

theorem Level.giveSwitch_of_fresh {lv : Level} {o : Opt} (h : lv.Fresh o.id) :
    lv.giveSwitch o = some (lv.setSwitch o.id) := by
  rw [giveSwitch, h.2]
  rfl

/-- A piece gives no option but its own. -/
theorem Level.Fresh.give {lv : Level} {id : String} (h : lv.Fresh id) {p : Piece}
    (hp : id ≠ p.id) : (p.give lv).Fresh id := by
  cases p with
  | value flag o v =>
      cases v with
      | none => exact h
      | some v => exact ⟨(if_neg hp).trans h.1, h.2⟩
  | switch flag o on =>
      cases on with
      | false => exact h
      | true => exact ⟨h.1, (if_neg hp).trans h.2⟩

/-- One piece of a line is read, or its value is taken for an option and refused. -/
theorem run_piece {cmd : Command} {p : Piece} (hknown : p.Known cmd) {lv : Level}
    (hfresh : lv.Fresh p.id) (rest : List String) :
    run cmd lv (p.args ++ rest) = if p.fits then run cmd (p.give lv) rest else none := by
  cases p with
  | value flag o v =>
      cases v with
      | none => rfl
      | some v =>
          change run cmd lv (flag :: v :: rest) = _
          rw [run_need (hknown lv), Level.giveValue_of_fresh hfresh]
          rfl
  | switch flag o on =>
      cases on with
      | false => rfl
      | true =>
          have hstep : step cmd lv flag = some (.next (lv.setSwitch o.id)) := by
            rw [hknown lv, Level.giveSwitch_of_fresh hfresh]
            rfl
          exact run_next hstep rest

/-- A line whose options differ is read piece by piece if every value fits, and refused
otherwise. -/
theorem run_pieces {cmd : Command} {ps : List Piece} (hknown : ∀ p ∈ ps, p.Known cmd)
    (hids : (ps.map Piece.id).Nodup) {lv : Level} (hfresh : ∀ p ∈ ps, lv.Fresh p.id)
    (rest : List String) :
    run cmd lv (ps.flatMap Piece.args ++ rest) =
      if ps.all Piece.fits then run cmd (ps.foldl Piece.give lv) rest else none := by
  induction ps generalizing lv with
  | nil => rfl
  | cons p ps ih =>
      rw [List.map_cons, List.nodup_cons] at hids
      have hnext : ∀ q ∈ ps, (p.give lv).Fresh q.id := by
        intro q hq
        refine (hfresh q (List.mem_cons_of_mem p hq)).give fun hid => hids.1 ?_
        rw [← hid]
        exact List.mem_map_of_mem hq
      have htail := ih (fun q hq => hknown q (List.mem_cons_of_mem p hq)) hids.2 hnext
      rw [List.flatMap_cons, List.append_assoc,
        run_piece (hknown p List.mem_cons_self) (hfresh p List.mem_cons_self), htail,
        List.all_cons, List.foldl_cons]
      cases p.fits with
      | true => rfl
      | false => rfl

/-! What a line of pieces leaves behind. -/

namespace Piece

/-- The value that a piece gives to an option. -/
def given : Piece → Option String
  | value _ _ v => v
  | switch _ _ _ => none

def on : Piece → Bool
  | value _ _ _ => false
  | switch _ _ on => on

end Piece

/-- A level that was given these pieces and no word. -/
def Level.ofPieces (ps : List Piece) : Level where
  values := fun k => (ps.find? fun p => p.id == k).bind Piece.given
  switches := fun k => (ps.find? fun p => p.id == k).any Piece.on
  filled := 0
  trailing := []

theorem Piece.give_eq (p : Piece) (lv : Level) :
    p.give lv = ⟨fun k => if k = p.id then p.given.or (lv.values k) else lv.values k,
      fun k => if k = p.id then p.on || lv.switches k else lv.switches k, lv.filled,
      lv.trailing⟩ := by
  cases p with
  | value flag o v =>
      cases v with
      | none =>
          refine (congrArg₂ (Level.mk · · lv.filled lv.trailing) ?_ ?_).symm
          · exact funext fun k => ite_self _
          · exact funext fun k => ite_self _
      | some v =>
          refine (congrArg (Level.mk _ · lv.filled lv.trailing) ?_).symm
          exact funext fun k => ite_self _
  | switch flag o on =>
      cases on with
      | false =>
          refine (congrArg₂ (Level.mk · · lv.filled lv.trailing) ?_ ?_).symm
          · exact funext fun k => ite_self _
          · exact funext fun k => ite_self _
      | true =>
          refine (congrArg (Level.mk · _ lv.filled lv.trailing) ?_).symm
          exact funext fun k => ite_self _

/-- Pieces after others whose options differ from theirs. -/
theorem foldl_give_eq {ps : List Piece} (hids : (ps.map Piece.id).Nodup) (lv : Level)
    (hfresh : ∀ p ∈ ps, lv.Fresh p.id) :
    ps.foldl Piece.give lv =
      ⟨fun k => ((Level.ofPieces ps).values k).or (lv.values k),
        fun k => (Level.ofPieces ps).switches k || lv.switches k, lv.filled, lv.trailing⟩ := by
  induction ps generalizing lv with
  | nil => rfl
  | cons p ps ih =>
      rw [List.map_cons, List.nodup_cons] at hids
      have hother : ∀ q ∈ ps, q.id ≠ p.id := fun q hq hid =>
        hids.1 (hid ▸ List.mem_map_of_mem hq)
      have hnone : (ps.find? fun q => q.id == p.id) = none := by
        rw [List.find?_eq_none]
        exact fun q hq hid => hother q hq (eq_of_beq hid)
      rw [List.foldl_cons, ih hids.2 _ fun q hq =>
        (hfresh q (List.mem_cons_of_mem p hq)).give (hother q hq), p.give_eq]
      refine congrArg₂ (Level.mk · · lv.filled lv.trailing) ?_ ?_
      · funext k
        simp only [Level.ofPieces, List.find?_cons]
        by_cases hk : k = p.id
        · subst hk
          simp [hnone]
        · have hne : (p.id == k) = false := beq_false_of_ne (Ne.symm hk)
          simp [hk, hne]
      · funext k
        simp only [Level.ofPieces, List.find?_cons]
        by_cases hk : k = p.id
        · subst hk
          simp [hnone]
        · have hne : (p.id == k) = false := beq_false_of_ne (Ne.symm hk)
          simp [hk, hne]

theorem foldl_give_empty {ps : List Piece} (hids : (ps.map Piece.id).Nodup) :
    ps.foldl Piece.give .empty = .ofPieces ps := by
  rw [foldl_give_eq hids .empty fun p _ => Level.fresh_empty p.id]
  refine congrArg₂ (Level.mk · · 0 []) ?_ ?_
  · exact funext fun k => Option.or_none
  · exact funext fun k => Bool.or_false _

end CommandLine

end Paniolo
