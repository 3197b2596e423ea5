import Paniolo.Library.CommandLine

/-!
# A line, argument by argument

How a tree of commands goes over the arguments of a line. An argument is read
by what it looks like, by the command it is given to and by the number of words
that command has; what was read is a list of events in the order of the line.
`collect` says what the events leave at each command, and `once` that no option
is there twice. An option may take a value or leave it: it looks at the next
argument, and takes it if that one does not look like an option.
-/

namespace Paniolo

namespace Argv

open CommandLine (token isValue)

/-- How many values an option takes; help takes none and ends the run. -/
inductive Takes where
  | nothing
  | value
  | optional
  | ends
deriving DecidableEq

/-- An option; `repeats` if it may be given again. -/
structure Opt where
  id : String
  takes : Takes
  repeats : Bool
deriving DecidableEq

/-- The commands of a program: their options, their subcommands, and for each number of words so
far whether there may be one more and whether it begins the rest. -/
structure Grammar (κ : Type) where
  long : κ → String → Option Opt
  short : κ → Char → Option Opt
  sub : κ → String → Option κ
  takesWord : κ → Nat → Bool
  trailing : κ → Nat → Bool

/-- What a line says. -/
inductive Event where
  | opt (o : Opt) (v : Option String)
  | word (w : String)
  | escape
  | enter (name : String)
deriving DecidableEq

/-- What one argument is read as. -/
inductive Reading (κ : Type) where
  | refused
  /-- Options with all that they take. -/
  | given (es : List Event)
  /-- The next argument is the value of the last one. -/
  | needs (es : List Event) (o : Opt)
  /-- The next argument may be. -/
  | mayTake (es : List Event) (o : Opt)
  | word
  /-- A word, and so are all arguments after it. -/
  | rest
  /-- All arguments after it are words. -/
  | escape
  | enter (sub : κ)

namespace Grammar

variable {κ : Type} (g : Grammar κ)

/-- Short options that stand together; one that can have a value has what is left of them. -/
def cluster (c : κ) (es : List Event) : List Char → Reading κ
  | [] => .given es
  | ch :: chars =>
      match g.short c ch with
      | none => .refused
      | some o =>
          match o.takes, chars with
          | .ends, _ => .refused
          | .nothing, chars => cluster c (es ++ [.opt o none]) chars
          | .value, [] => .needs es o
          | .optional, [] => .mayTake es o
          | _, '=' :: v => .given (es ++ [.opt o (some (String.ofList v))])
          | _, v => .given (es ++ [.opt o (some (String.ofList v))])

def longOption (o : Opt) (value : Option String) : Reading κ :=
  match o.takes, value with
  | .nothing, none => .given [.opt o none]
  | .value, none => .needs [] o
  | .optional, none => .mayTake [] o
  | .value, some v => .given [.opt o (some v)]
  | .optional, some v => .given [.opt o (some v)]
  | _, _ => .refused

/-- Something that looks like an option and is none: the rest may begin with it. -/
def unknown (c : κ) (n : Nat) : Reading κ :=
  if g.trailing c n && g.takesWord c n then .rest else .refused

/-- One argument of a command that has `n` words. -/
def reads (c : κ) (n : Nat) (arg : String) : Reading κ :=
  match token arg with
  | .escape => .escape
  | .long name value =>
      match g.long c name with
      | some o => longOption o value
      | none => g.unknown c n
  | .short chars =>
      if g.trailing c n && chars.any fun ch => (g.short c ch).isNone then g.unknown c n
      else g.cluster c [] chars
  | .plain =>
      match g.sub c arg with
      | some sub => .enter sub
      | none =>
          if g.takesWord c n then if g.trailing c n then .rest else .word else .refused

/-- Arguments that are words whatever they look like. -/
def words (c : κ) (n : Nat) : List String → Option (List Event)
  | [] => some []
  | w :: ws => if g.takesWord c n then (words c (n + 1) ws).map (.word w :: ·) else none

/-- The arguments of a command that has `n` words, and of the subcommands that follow. -/
def scan (c : κ) (n : Nat) : List String → Option (List Event)
  | [] => some []
  | arg :: args =>
      match g.reads c n arg with
      | .refused => none
      | .given es => (scan c n args).map (es ++ ·)
      | .needs es o =>
          match args with
          | [] => none
          | v :: args =>
              if isValue v then (scan c n args).map (es ++ .opt o (some v) :: ·) else none
      | .mayTake es o =>
          match args with
          | [] => some (es ++ [.opt o none])
          | v :: args =>
              if isValue v then (scan c n args).map (es ++ .opt o (some v) :: ·)
              else (scan c n (v :: args)).map (es ++ .opt o none :: ·)
      | .word => (scan c (n + 1) args).map (.word arg :: ·)
      | .rest => (g.words c (n + 1) args).map (.word arg :: ·)
      | .escape => (g.words c n args).map (.escape :: ·)
      | .enter sub => (scan sub 0 args).map (.enter arg :: ·)

end Grammar

/-! ### What the events leave -/

/-- What one command was given: the values of each option in their order, and its words. -/
@[ext] structure Level where
  given : String → List (Option String)
  words : List String

namespace Level

def empty : Level := ⟨fun _ => [], []⟩

def give (lv : Level) (o : Opt) (v : Option String) : Level :=
  { lv with given := fun k => if k = o.id then v :: lv.given k else lv.given k }

def addWord (lv : Level) (w : String) : Level := { lv with words := w :: lv.words }

/-- The value of an option that was given one; the last one counts. -/
def value (lv : Level) (id : String) : Option String := (lv.given id).getLast?.join

/-- Without some of the options. -/
def hide (ids : List String) (lv : Level) : Level :=
  { lv with given := fun k => if k ∈ ids then [] else lv.given k }

end Level

/-- What the first command was given, and each subcommand. -/
@[ext] structure Matches where
  top : Level
  subs : List (String × Level)

namespace Matches

def empty : Matches := ⟨.empty, []⟩

def add (e : Event) (m : Matches) : Matches :=
  match e with
  | .opt o v => { m with top := m.top.give o v }
  | .word w => { m with top := m.top.addWord w }
  | .escape => m
  | .enter name => ⟨.empty, (name, m.top) :: m.subs⟩

/-- An option that every command has counts where it stands deepest. -/
def globalValue (m : Matches) (id : String) : Option String :=
  m.subs.foldl (fun v s => (s.2.value id).or v) (m.top.value id)

/-- The subcommand that a line names. -/
def path (m : Matches) : List String := m.subs.map Prod.fst

/-- Without some options of the first command and some of those after it. -/
def hide (top subs : List String) (m : Matches) : Matches :=
  ⟨m.top.hide top, m.subs.map fun s => (s.1, s.2.hide subs)⟩

end Matches

def collect (es : List Event) : Matches := es.foldr Matches.add .empty

/-- An option that may not be repeated is given once at a command. -/
def once : List Event → Bool
  | [] => true
  | .opt o _ :: es => (o.repeats || (collect es).top.given o.id == []) && once es
  | _ :: es => once es

/-! ### One argument -/

namespace Grammar

variable {κ : Type} {g : Grammar κ} {c : κ} {n : Nat} {arg v : String} {args : List String}
  {es es' : List Event} {o : Opt}

/-- The argument can have the next one as a value of its last option. -/
def Looks (g : Grammar κ) (c : κ) (n : Nat) (arg : String) (es : List Event) (o : Opt) : Prop :=
  g.reads c n arg = .needs es o ∨ g.reads c n arg = .mayTake es o

theorem scan_given (h : g.reads c n arg = .given es) :
    g.scan c n (arg :: args) = (g.scan c n args).map (es ++ ·) := by
  rw [scan, h]

theorem scan_takes (h : g.Looks c n arg es o) (hv : isValue v = true) :
    g.scan c n (arg :: v :: args) = (g.scan c n args).map (es ++ .opt o (some v) :: ·) := by
  rcases h with h | h
  · rw [scan, h]
    exact if_pos hv
  · rw [scan, h]
    exact if_pos hv

theorem scan_leaves (h : g.reads c n arg = .mayTake es o)
    (hargs : ∀ v ∈ args.head?, isValue v = false) :
    g.scan c n (arg :: args) = (g.scan c n args).map (es ++ .opt o none :: ·) := by
  cases args with
  | nil =>
      rw [scan, scan, h]
      rfl
  | cons v args =>
      have hv : ¬ isValue v = true := by rw [hargs v rfl]; exact Bool.false_ne_true
      rw [scan, h]
      exact if_neg hv

theorem scan_word (h : g.reads c n arg = .word) :
    g.scan c n (arg :: args) = (g.scan c (n + 1) args).map (.word arg :: ·) := by
  rw [scan, h]

theorem scan_rest (h : g.reads c n arg = .rest) :
    g.scan c n (arg :: args) = (g.words c (n + 1) args).map (.word arg :: ·) := by
  rw [scan, h]

theorem scan_escape (h : g.reads c n arg = .escape) :
    g.scan c n (arg :: args) = (g.words c n args).map (.escape :: ·) := by
  rw [scan, h]

theorem scan_enter {sub : κ} (h : g.reads c n arg = .enter sub) :
    g.scan c n (arg :: args) = (g.scan sub 0 args).map (.enter arg :: ·) := by
  rw [scan, h]

/-- The ways in which the events of a line come about, one argument at a time. -/
inductive Scans (g : Grammar κ) : κ → Nat → List String → List Event → Prop where
  | nil {c : κ} {n : Nat} : Scans g c n [] []
  | given {c : κ} {n : Nat} {arg : String} {args : List String} {es es' : List Event}
      (h : g.reads c n arg = .given es) (tail : Scans g c n args es') :
      Scans g c n (arg :: args) (es ++ es')
  | takes {c : κ} {n : Nat} {arg v : String} {args : List String} {es es' : List Event} {o : Opt}
      (h : g.Looks c n arg es o) (hv : isValue v = true) (tail : Scans g c n args es') :
      Scans g c n (arg :: v :: args) (es ++ .opt o (some v) :: es')
  | leaves {c : κ} {n : Nat} {arg : String} {args : List String} {es es' : List Event} {o : Opt}
      (h : g.reads c n arg = .mayTake es o) (hargs : ∀ v ∈ args.head?, isValue v = false)
      (tail : Scans g c n args es') :
      Scans g c n (arg :: args) (es ++ .opt o none :: es')
  | word {c : κ} {n : Nat} {arg : String} {args : List String} {es : List Event}
      (h : g.reads c n arg = .word) (tail : Scans g c (n + 1) args es) :
      Scans g c n (arg :: args) (.word arg :: es)
  | rest {c : κ} {n : Nat} {arg : String} {args : List String} {es : List Event}
      (h : g.reads c n arg = .rest) (tail : g.words c (n + 1) args = some es) :
      Scans g c n (arg :: args) (.word arg :: es)
  | escape {c : κ} {n : Nat} {arg : String} {args : List String} {es : List Event}
      (h : g.reads c n arg = .escape) (tail : g.words c n args = some es) :
      Scans g c n (arg :: args) (.escape :: es)
  | enter {c sub : κ} {n : Nat} {arg : String} {args : List String} {es : List Event}
      (h : g.reads c n arg = .enter sub) (tail : Scans g sub 0 args es) :
      Scans g c n (arg :: args) (.enter arg :: es)

theorem Scans.scan_eq (h : g.Scans c n args es) : g.scan c n args = some es := by
  induction h with
  | nil => rfl
  | given h _ ih =>
      rw [scan_given h, ih]
      rfl
  | takes h hv _ ih =>
      rw [scan_takes h hv, ih]
      rfl
  | leaves h hargs _ ih =>
      rw [scan_leaves h hargs, ih]
      rfl
  | word h _ ih =>
      rw [scan_word h, ih]
      rfl
  | rest h tail =>
      rw [scan_rest h, tail]
      rfl
  | escape h tail =>
      rw [scan_escape h, tail]
      rfl
  | enter h _ ih =>
      rw [scan_enter h, ih]
      rfl

theorem scans_of_scan (h : g.scan c n args = some es) : g.Scans c n args es := by
  induction hlen : args.length using Nat.strongRecOn generalizing c n args es with
  | ind k ih =>
      cases args with
      | nil =>
          cases h
          exact .nil
      | cons arg args =>
          have hnext : ∀ {c : κ} {n : Nat} {es : List Event},
              g.scan c n args = some es → g.Scans c n args es := fun hs =>
            ih args.length (by rw [← hlen]; exact Nat.lt_succ_self _) hs rfl
          rcases hr : g.reads c n arg with _ | es₀ | ⟨es₀, o⟩ | ⟨es₀, o⟩ | _ | _ | _ | sub
          · rw [scan, hr] at h
            cases h
          · rw [scan_given hr, Option.map_eq_some_iff] at h
            obtain ⟨es', hs, rfl⟩ := h
            exact .given hr (hnext hs)
          · cases args with
            | nil =>
                rw [scan, hr] at h
                cases h
            | cons v args =>
                cases hv : isValue v with
                | false =>
                    rw [scan, hr] at h
                    simp only [hv, Bool.false_eq_true, if_false, reduceCtorEq] at h
                | true =>
                    rw [scan_takes (.inl hr) hv, Option.map_eq_some_iff] at h
                    obtain ⟨es', hs, rfl⟩ := h
                    refine .takes (.inl hr) hv (ih args.length ?_ hs rfl)
                    rw [← hlen]
                    exact Nat.lt_succ_of_lt (Nat.lt_succ_self _)
          · cases args with
            | nil =>
                have hnone : ∀ v ∈ ([] : List String).head?, isValue v = false := fun v hv =>
                  absurd hv (Option.not_mem_none v)
                rw [scan_leaves hr hnone, Option.map_eq_some_iff] at h
                obtain ⟨es', hs, rfl⟩ := h
                exact .leaves hr hnone (hnext hs)
            | cons v args =>
                cases hv : isValue v with
                | false =>
                    have hhead : ∀ w ∈ (v :: args).head?, isValue w = false := by
                      intro w hw
                      cases hw
                      exact hv
                    rw [scan_leaves hr hhead, Option.map_eq_some_iff] at h
                    obtain ⟨es', hs, rfl⟩ := h
                    exact .leaves hr hhead (hnext hs)
                | true =>
                    rw [scan_takes (.inr hr) hv, Option.map_eq_some_iff] at h
                    obtain ⟨es', hs, rfl⟩ := h
                    refine .takes (.inr hr) hv (ih args.length ?_ hs rfl)
                    rw [← hlen]
                    exact Nat.lt_succ_of_lt (Nat.lt_succ_self _)
          · rw [scan_word hr, Option.map_eq_some_iff] at h
            obtain ⟨es', hs, rfl⟩ := h
            exact .word hr (hnext hs)
          · rw [scan_rest hr, Option.map_eq_some_iff] at h
            obtain ⟨es', hs, rfl⟩ := h
            exact .rest hr hs
          · rw [scan_escape hr, Option.map_eq_some_iff] at h
            obtain ⟨es', hs, rfl⟩ := h
            exact .escape hr hs
          · rw [scan_enter hr, Option.map_eq_some_iff] at h
            obtain ⟨es', hs, rfl⟩ := h
            exact .enter hr (hnext hs)

theorem words_eq {ws : List String} (h : g.words c n ws = some es) : es = ws.map .word := by
  induction ws generalizing n es with
  | nil =>
      cases h
      rfl
  | cons w ws ih =>
      rw [words] at h
      split at h
      · obtain ⟨es', hs, rfl⟩ := Option.map_eq_some_iff.mp h
        rw [ih hs, List.map_cons]
      · cases h

/-! ### Where options come from -/

/-- An option of the command, by either name. -/
def Known (g : Grammar κ) (c : κ) (o : Opt) : Prop :=
  (∃ name, g.long c name = some o) ∨ ∃ ch, g.short c ch = some o

/-- An option that has all it takes, known to the command and not among some that are left out. -/
def Settled (g : Grammar κ) (c : κ) (P : Opt → Prop) (e : Event) : Prop :=
  ∃ o v, e = .opt o v ∧ g.Known c o ∧ P o ∧ (v = none → o.takes = .nothing)

/-- All options of what an argument was read as are such. -/
def Yields (g : Grammar κ) (c : κ) (P : Opt → Prop) : Reading κ → Prop
  | .given es => ∀ e ∈ es, g.Settled c P e
  | .needs es o => (∀ e ∈ es, g.Settled c P e) ∧ g.Known c o ∧ P o
  | .mayTake es o => (∀ e ∈ es, g.Settled c P e) ∧ g.Known c o ∧ P o ∧ o.takes = .optional
  | _ => True

variable {P : Opt → Prop}

theorem settled_append (hes : ∀ e ∈ es, g.Settled c P e) {v : Option String}
    (hknown : g.Known c o) (hP : P o) (hv : v = none → o.takes = .nothing) :
    ∀ e ∈ es ++ [.opt o v], g.Settled c P e := by
  intro e he
  rcases List.mem_append.mp he with he | he
  · exact hes e he
  · exact ⟨o, v, List.mem_singleton.mp he, hknown, hP, hv⟩

theorem yields_cluster (hshort : ∀ ch o, g.short c ch = some o → P o) (chars : List Char)
    (hes : ∀ e ∈ es, g.Settled c P e) : g.Yields c P (g.cluster c es chars) := by
  induction chars generalizing es with
  | nil => exact hes
  | cons ch chars ih =>
      rw [cluster]
      cases ho : g.short c ch with
      | none => trivial
      | some o =>
          have hknown : g.Known c o := .inr ⟨ch, ho⟩
          have hP : P o := hshort ch o ho
          have hvalue : ∀ v : String, ∀ e ∈ es ++ [.opt o (some v)], g.Settled c P e := fun v =>
            settled_append hes hknown hP fun h => absurd h (Option.some_ne_none v)
          dsimp only
          split
          · trivial
          · next htakes => exact ih (settled_append hes hknown hP fun _ => htakes)
          · exact ⟨hes, hknown, hP⟩
          · next htakes => exact ⟨hes, hknown, hP, htakes⟩
          · exact hvalue _
          · exact hvalue _

theorem yields_longOption (hknown : g.Known c o) (hP : P o) (value : Option String) :
    g.Yields c P (longOption o value) := by
  have hone : ∀ v : Option String, (v = none → o.takes = .nothing) →
      ∀ e ∈ [Event.opt o v], g.Settled c P e := by
    intro v hv e he
    exact ⟨o, v, List.mem_singleton.mp he, hknown, hP, hv⟩
  have hempty : ∀ e ∈ ([] : List Event), g.Settled c P e := fun e he =>
    absurd he List.not_mem_nil
  unfold longOption
  split
  · next htakes => exact hone none fun _ => htakes
  · exact ⟨hempty, hknown, hP⟩
  · next htakes => exact ⟨hempty, hknown, hP, htakes⟩
  · next v _ => exact hone (some v) fun h => absurd h (Option.some_ne_none v)
  · next v _ => exact hone (some v) fun h => absurd h (Option.some_ne_none v)
  · trivial

theorem yields_unknown : g.Yields c P (g.unknown c n) := by
  rw [unknown]
  split
  · trivial
  · trivial

/-- What holds of all short options of a command, and of the long one that an argument spells,
holds of all options that the argument is read as. -/
theorem yields_reads (hshort : ∀ ch o, g.short c ch = some o → P o)
    (hlong : ∀ name value o, token arg = .long name value → g.long c name = some o → P o) :
    g.Yields c P (g.reads c n arg) := by
  rw [reads]
  split
  · trivial
  · next name value htoken =>
      cases ho : g.long c name with
      | none => exact yields_unknown
      | some o => exact yields_longOption (.inl ⟨name, ho⟩) (hlong name value o htoken ho) value
  · next chars _ =>
      split
      · exact yields_unknown
      · exact yields_cluster hshort chars fun e he => absurd he List.not_mem_nil
  · cases g.sub c arg with
    | some sub => trivial
    | none =>
        dsimp only
        split
        · split
          · trivial
          · trivial
        · trivial

/-- Whether an argument that is read so can be the value of an option in front of it; a word
that begins the rest may look like an option. -/
def plain : Reading κ → Option Bool
  | .given _ => some false
  | .needs _ _ => some false
  | .mayTake _ _ => some false
  | .escape => some false
  | .word => some true
  | .enter _ => some true
  | .refused => none
  | .rest => none

theorem plain_cluster (es : List Event) (chars : List Char) :
    ∀ b ∈ plain (g.cluster c es chars), b = false := by
  induction chars generalizing es with
  | nil =>
      intro b hb
      exact (Option.some.inj hb).symm
  | cons ch chars ih =>
      rw [cluster]
      cases g.short c ch with
      | none => exact fun b hb => absurd hb (Option.not_mem_none b)
      | some o =>
          dsimp only
          split
          · exact fun b hb => absurd hb (Option.not_mem_none b)
          · exact ih _
          all_goals exact fun b hb => (Option.some.inj hb).symm

theorem isValue_eq {r : Reading κ} {b : Bool} (hr : g.reads c n arg = r)
    (h : plain r = some b) : isValue arg = b := by
  have hunknown : ∀ b, b ∉ plain (g.unknown c n) := by
    intro b
    rw [unknown]
    split
    · exact Option.not_mem_none b
    · exact Option.not_mem_none b
  rw [← hr, reads] at h
  rw [isValue]
  split at h
  · next htoken =>
      rw [htoken]
      exact Option.some.inj h
  · next name value htoken =>
      rw [htoken]
      cases ho : g.long c name with
      | none =>
          rw [ho] at h
          exact absurd h (hunknown b)
      | some o =>
          rw [ho] at h
          dsimp only [longOption] at h
          split at h
          all_goals first
            | exact Option.some.inj h
            | exact absurd h (Option.not_mem_none b)
  · next chars htoken =>
      rw [htoken]
      split at h
      · exact absurd h (hunknown b)
      · exact (plain_cluster [] chars b h).symm
  · next htoken =>
      rw [htoken]
      cases hsub : g.sub c arg with
      | some sub =>
          rw [hsub] at h
          exact Option.some.inj h
      | none =>
          rw [hsub] at h
          dsimp only at h
          split at h
          · split at h
            · exact absurd h (Option.not_mem_none b)
            · exact Option.some.inj h
          · exact absurd h (Option.not_mem_none b)

/-- Options that an argument is read as are there. -/
theorem cluster_ne_nil {chars : List Char} (h : g.cluster c es chars = .given es')
    (hne : es ≠ [] ∨ chars ≠ []) : es' ≠ [] := by
  induction chars generalizing es with
  | nil =>
      cases h
      exact hne.resolve_right fun h => h rfl
  | cons ch chars ih =>
      rw [cluster] at h
      cases ho : g.short c ch with
      | none =>
          rw [ho] at h
          cases h
      | some o =>
          rw [ho] at h
          dsimp only at h
          split at h
          · cases h
          · exact ih h (.inl (List.append_ne_nil_of_right_ne_nil es (List.cons_ne_nil _ _)))
          · cases h
          · cases h
          all_goals
            cases h
            exact List.append_ne_nil_of_right_ne_nil es (List.cons_ne_nil _ _)

theorem given_ne_nil (h : g.reads c n arg = .given es) : es ≠ [] := by
  have hunknown : g.unknown c n ≠ .given es := by
    rw [unknown]
    split
    · exact fun h => by cases h
    · exact fun h => by cases h
  rw [reads] at h
  split at h
  · cases h
  · next name value htoken =>
      cases ho : g.long c name with
      | none =>
          rw [ho] at h
          exact absurd h hunknown
      | some o =>
          rw [ho] at h
          dsimp only [longOption] at h
          split at h
          all_goals cases h
          all_goals exact List.cons_ne_nil _ _
  · next chars htoken =>
      have hchars : chars ≠ [] := by
        rw [CommandLine.token] at htoken
        split at htoken
        · cases htoken
        · cases htoken
        · cases htoken
          exact List.cons_ne_nil _ _
        · cases htoken
      split at h
      · exact absurd h hunknown
      · exact cluster_ne_nil h (.inr hchars)
  · next htoken =>
      cases hsub : g.sub c arg with
      | some sub =>
          rw [hsub] at h
          cases h
      | none =>
          rw [hsub] at h
          dsimp only at h
          split at h
          · split at h
            · cases h
            · cases h
          · cases h

end Grammar

/-! ### What is left without some options -/

section

variable {ids subs : List String} {e : Event} {es : List Event} {m m' : Matches} {o : Opt}
  {v : Option String}

theorem collect_cons : collect (e :: es) = (collect es).add e := rfl

theorem collect_append (es es' : List Event) :
    collect (es ++ es') = es.foldr Matches.add (collect es') := by
  rw [collect, List.foldr_append]
  rfl

theorem Level.hide_give_of_mem (h : o.id ∈ ids) (lv : Level) (v : Option String) :
    (lv.give o v).hide ids = lv.hide ids := by
  refine Level.ext (funext fun k => ?_) rfl
  change (if k ∈ ids then [] else if k = o.id then v :: lv.given k else lv.given k) =
    if k ∈ ids then [] else lv.given k
  by_cases hk : k ∈ ids
  · rw [if_pos hk, if_pos hk]
  · have hne : k ≠ o.id := fun he => hk (he ▸ h)
    rw [if_neg hk, if_neg hk, if_neg hne]

theorem Level.hide_give_of_notMem (h : o.id ∉ ids) (lv : Level) (v : Option String) :
    (lv.give o v).hide ids = (lv.hide ids).give o v := by
  refine Level.ext (funext fun k => ?_) rfl
  change (if k ∈ ids then [] else if k = o.id then v :: lv.given k else lv.given k) =
    if k = o.id then v :: (if k ∈ ids then [] else lv.given k) else
      if k ∈ ids then [] else lv.given k
  by_cases hk : k ∈ ids
  · have hne : k ≠ o.id := fun he => h (he ▸ hk)
    rw [if_pos hk, if_neg hne, if_pos hk]
  · rw [if_neg hk, if_neg hk]

theorem Level.give_inj {lv lv' : Level} (h : lv.give o v = lv'.give o v) : lv = lv' := by
  have hwords : (lv.give o v).words = (lv'.give o v).words := congrArg Level.words h
  refine Level.ext (funext fun k => ?_) hwords
  have hk : (lv.give o v).given k = (lv'.give o v).given k := by rw [h]
  change (if k = o.id then v :: lv.given k else lv.given k) =
    (if k = o.id then v :: lv'.given k else lv'.given k) at hk
  by_cases he : k = o.id
  · rw [if_pos he, if_pos he] at hk
    exact (List.cons.inj hk).2
  · rw [if_neg he, if_neg he] at hk
    exact hk

theorem Matches.hide_opt_of_mem (h : o.id ∈ ids) (m : Matches) (v : Option String) :
    (m.add (.opt o v)).hide ids subs = m.hide ids subs :=
  Matches.ext (Level.hide_give_of_mem h m.top v) rfl

theorem Matches.hide_opt_of_notMem (h : o.id ∉ ids) (m : Matches) (v : Option String) :
    (m.add (.opt o v)).hide ids subs = (m.hide ids subs).add (.opt o v) :=
  Matches.ext (Level.hide_give_of_notMem h m.top v) rfl

/-- The same option in front of two lines takes no part in what sets them apart. -/
theorem Matches.hide_opt_cancel
    (h : (m.add (.opt o v)).hide ids subs = (m'.add (.opt o v)).hide ids subs) :
    m.hide ids subs = m'.hide ids subs := by
  by_cases hid : o.id ∈ ids
  · rw [hide_opt_of_mem hid, hide_opt_of_mem hid] at h
    exact h
  · rw [hide_opt_of_notMem hid, hide_opt_of_notMem hid] at h
    have hsubs : ((m.hide ids subs).add (.opt o v)).subs =
        ((m'.hide ids subs).add (.opt o v)).subs := by rw [h]
    exact Matches.ext (Level.give_inj (congrArg Matches.top h)) hsubs

theorem Matches.hide_word_cancel {w : String}
    (h : (m.add (.word w)).hide ids subs = (m'.add (.word w)).hide ids subs) :
    m.hide ids subs = m'.hide ids subs := by
  have htop : (m.hide ids subs).top.addWord w = (m'.hide ids subs).top.addWord w :=
    congrArg Matches.top h
  have hgiven : ((m.hide ids subs).top.addWord w).given =
      ((m'.hide ids subs).top.addWord w).given := congrArg Level.given htop
  have hwords := (List.cons.inj (congrArg Level.words htop)).2
  have hsubs : ((m.add (.word w)).hide ids subs).subs =
      ((m'.add (.word w)).hide ids subs).subs := congrArg Matches.subs h
  exact Matches.ext (Level.ext hgiven hwords) hsubs

/-- Behind a subcommand the hidden options are those of the commands after it. -/
theorem Matches.hide_enter_cancel {name : String}
    (h : (m.add (.enter name)).hide ids subs = (m'.add (.enter name)).hide ids subs) :
    m.hide subs subs = m'.hide subs subs := by
  have hsubs := List.cons.inj (congrArg Matches.subs h)
  exact Matches.ext (congrArg Prod.snd hsubs.1) hsubs.2

/-- Two lines that give an option different values are not alike. -/
theorem Matches.hide_opt_ne (hid : o.id ∉ ids) {v' : Option String} (hv : v ≠ v') :
    (m.add (.opt o v)).hide ids subs ≠ (m'.add (.opt o v')).hide ids subs := by
  intro h
  rw [hide_opt_of_notMem hid, hide_opt_of_notMem hid] at h
  have hgiven : ((m.hide ids subs).top.give o v).given o.id =
      ((m'.hide ids subs).top.give o v').given o.id := by
    have htop := congrArg Matches.top h
    exact congrFun (congrArg Level.given htop) o.id
  change (if o.id = o.id then v :: _ else _) = (if o.id = o.id then v' :: _ else _) at hgiven
  rw [if_pos rfl, if_pos rfl] at hgiven
  exact hv (List.cons.inj hgiven).1

theorem collect_words (ws : List String) :
    collect (ws.map .word) = ⟨⟨fun _ => [], ws⟩, []⟩ := by
  induction ws with
  | nil => rfl
  | cons w ws ih =>
      rw [List.map_cons, collect_cons, ih]
      rfl

end

end Argv

end Paniolo
