import Paniolo.Library.Argv
import Paniolo.Cli.Model

/-!
# A command on another host

A command for a target of another host is run there: the arguments of this
process are given to the program of that host, behind a slice of the lab. The
list is edited as it stands, without the parser; what the parser over there
makes of it is compared with what the parser here made of the arguments. The
subcommands and their own options may be any; `Parser` has what `Cli` declares.
-/

namespace Paniolo

namespace Cli

/-! ### The arguments of the other process -/

def Host.paniolo (host : Host) : String := host.panioloCmd.getD "paniolo"

/-- The `=` form keeps any value a value. -/
def Host.panioloArgv (host : Host) : List String :=
  host.paniolo :: (host.pluginPath.map fun p => "--plugin-path=" ++ p).toList

namespace Reexec

open CommandLine (token isValue)

open Argv

/-- `out` and `skip` after one more argument. -/
def stripStep (st : List String × Bool) (a : String) : List String × Bool :=
  if st.2 then (st.1, false)
  else if a == "--lab" then (st.1, true)
  else if "--lab=".toList.isPrefixOf a.toList then (st.1, false)
  else (st.1 ++ [a], false)

def stripLabOption (args : List String) : List String := (args.foldl stripStep ([], false)).1

/-- The name of the slice on the other host. -/
def slicePath (pid stamp : Nat) : String :=
  ".paniolo-lab-" ++ toString pid ++ "-" ++ toString stamp ++ ".toml"

def jsonErrorsArg (requested : Bool) : Option String :=
  if requested then some "--json-errors" else none

def remoteArgv (host : Host) (remotePath : String) (jsonRequested : Bool)
    (subArgv : List String) : List String :=
  host.panioloArgv ++ ["--lab", remotePath] ++ (jsonErrorsArg jsonRequested).toList ++ subArgv

/-! ### The parser -/

def labOpt : Opt := ⟨"lab", .value, false⟩

/-- Overrides itself, so a repeat is accepted. -/
def jsonErrorsOpt : Opt := ⟨"json_errors", .nothing, true⟩

def pluginPathOpt : Opt := ⟨"plugin_path", .value, false⟩

/-- The options that every command has. -/
def globals : List String := ["lab", "json_errors"]

/-- The options of `Cli` itself. -/
def own : List String := ["plugin_path", "lab", "json_errors"]

/-- What the subcommand was given: all but the options of `Cli`. -/
def payload (m : Matches) : Matches := m.hide own globals

/-- `Cli` over any subcommands. What is required, what excludes what and which values there are is
judged on the arguments of the subcommand. -/
structure Parser (κ : Type) extends Grammar κ where
  root : κ
  check : Matches → Bool
  long_lab : ∀ c, long c "lab" = some labOpt
  long_jsonErrors : ∀ c, long c "json-errors" = some jsonErrorsOpt
  long_pluginPath : long root "plugin-path" = some pluginPathOpt
  eq_lab : ∀ c name o, long c name = some o → o.id = "lab" → name = "lab"
  short_ne_lab : ∀ c ch o, short c ch = some o → o.id ≠ "lab"
  eq_jsonErrors : ∀ c o, toGrammar.Known c o → o.id = "json_errors" → o = jsonErrorsOpt
  eq_pluginPath : ∀ o, toGrammar.Known root o → o.id = "plugin_path" → o = pluginPathOpt

namespace Parser

variable {κ : Type} (cli : Parser κ)

/-- The events of a line. -/
def events (args : List String) : List Event := (cli.scan cli.root 0 args).getD []

/-- `Cli::try_parse_from`, without the name of the program. -/
def tryParseFrom (args : List String) : Option Matches :=
  (cli.scan cli.root 0 args).bind fun es =>
    if once es && cli.check (payload (collect es)) then some (collect es) else none

end Parser

/-- The other process is given the command of this one, the slice and the host's own plugin
roots. -/
def Keeps {κ : Type} (cli : Parser κ) (host : Host) (remotePath : String) (jsonRequested : Bool)
    (args : List String) (m : Matches) : Prop :=
  ∃ m', cli.tryParseFrom (remoteArgv host remotePath jsonRequested (stripLabOption args)).tail =
      some m' ∧
    m'.path = m.path ∧ payload m' = payload m ∧ m'.globalValue "lab" = some remotePath ∧
    ∀ p ∈ host.pluginPath, m'.top.value "plugin_path" = some p

/-! ### What the scan takes for the option -/

/-- Spelled like the option. -/
def isLab (a : String) : Bool := a == "--lab" || "--lab=".toList.isPrefixOf a.toList

/-- A word that is spelled like the option. -/
def labWord (es : List Event) : Bool :=
  es.any fun e =>
    match e with
    | .word w => isLab w
    | _ => false

/-- Behind any number of `--lab`, something that an option can have as its value. -/
def offered : List Event → Bool
  | .opt o _ :: es => o.id == "lab" && offered es
  | .word w :: _ => isValue w
  | .enter _ :: _ => true
  | _ => false

/-- An option that was left without a value gets one when each `--lab` behind it is gone. -/
def exposed : List Event → Bool
  | [] => false
  | .opt o none :: es => (o.takes == .optional && offered es) || exposed es
  | _ :: es => exposed es

/-- All but `--lab`. -/
def dropLab (es : List Event) : List Event :=
  es.filter fun e =>
    match e with
    | .opt o _ => o.id != "lab"
    | _ => true

/-! ### The list without the option -/

section

variable {a v : String} {args : List String}

theorem foldl_stripStep (args : List String) (out : List String) (skip : Bool) :
    (args.foldl stripStep (out, skip)).1 = out ++ (args.foldl stripStep ([], skip)).1 := by
  induction args generalizing out skip with
  | nil => exact (List.append_nil out).symm
  | cons a args ih =>
      rw [List.foldl_cons, List.foldl_cons]
      have hstep : ∀ out : List String, stripStep (out, skip) a =
          (out ++ (stripStep ([], skip) a).1, (stripStep ([], skip) a).2) := by
        intro out
        simp only [stripStep]
        split
        · rw [List.append_nil]
        · split
          · rw [List.append_nil]
          · split
            · rw [List.append_nil]
            · rfl
      rw [hstep out, hstep [], ih, ih (_ ++ _), List.append_assoc, List.nil_append]

theorem stripLabOption_nil : stripLabOption [] = [] := rfl

theorem stripLabOption_lab : stripLabOption ("--lab" :: v :: args) = stripLabOption args := rfl

theorem stripLabOption_labEq (h : isLab a = true) (hne : a ≠ "--lab") :
    stripLabOption (a :: args) = stripLabOption args := by
  have hbeq : (a == "--lab") = false := beq_false_of_ne hne
  rw [isLab, hbeq, Bool.false_or] at h
  have hstep : stripStep ([], false) a = ([], false) := by
    rw [stripStep, hbeq, h]
    rfl
  rw [stripLabOption, List.foldl_cons, hstep]
  rfl

theorem stripLabOption_cons (h : isLab a = false) :
    stripLabOption (a :: args) = a :: stripLabOption args := by
  rw [isLab, Bool.or_eq_false_iff] at h
  have hstep : stripStep ([], false) a = ([a], false) := by
    rw [stripStep, h.1, h.2]
    rfl
  rw [stripLabOption, List.foldl_cons, hstep, foldl_stripStep]
  rfl

/-- What is kept is not spelled like the option. -/
theorem isLab_of_mem (h : a ∈ stripLabOption args) : isLab a = false := by
  have hall : ∀ (args : List String) (st : List String × Bool), (∀ b ∈ st.1, isLab b = false) →
      ∀ b ∈ (args.foldl stripStep st).1, isLab b = false := by
    intro args
    induction args with
    | nil => exact fun st hst => hst
    | cons c args ih =>
        intro st hst
        rw [List.foldl_cons]
        refine ih _ ?_
        unfold stripStep
        split
        · exact hst
        · split
          · exact hst
          · split
            · exact hst
            · next hlab hpre =>
                intro b hb
                rcases List.mem_append.mp hb with hb | hb
                · exact hst b hb
                · rw [List.mem_singleton.mp hb, isLab, Bool.or_eq_false_iff]
                  exact ⟨Bool.eq_false_of_not_eq_true hlab, Bool.eq_false_of_not_eq_true hpre⟩
  exact hall args ([], false) (fun b hb => absurd hb List.not_mem_nil) a h

theorem stripLabOption_eq_self (h : ∀ a ∈ args, isLab a = false) : stripLabOption args = args := by
  induction args with
  | nil => rfl
  | cons a args ih =>
      rw [stripLabOption_cons (h a List.mem_cons_self),
        ih fun b hb => h b (List.mem_cons_of_mem a hb)]

/-! ### How the option is read -/

theorem token_lab : token "--lab" = .long "lab" none := by decide

theorem token_labEq (h : isLab a = true) (hne : a ≠ "--lab") :
    ∃ v, token a = .long "lab" (some v) := by
  rw [isLab, beq_false_of_ne hne, Bool.false_or, List.isPrefixOf_iff_prefix] at h
  obtain ⟨v, hv⟩ := h
  refine ⟨String.ofList v, ?_⟩
  rw [CommandLine.token, ← hv]
  rfl

/-- Nothing else is read as the option. -/
theorem isLab_of_token {value : Option String} (h : token a = .long "lab" value) :
    isLab a = true := by
  rw [CommandLine.token] at h
  split at h
  · cases h
  · next body hbody hlist =>
      have hname := CommandLine.Token.long.inj h
      have htake : body.takeWhile (· != '=') = ['l', 'a', 'b'] := by
        rw [← String.toList_ofList (l := body.takeWhile (· != '=')), hname.1]
        rfl
      have hsplit := List.takeWhile_append_dropWhile (p := (· != '=')) (l := body)
      rw [htake] at hsplit
      rw [isLab, Bool.or_eq_true, beq_iff_eq, List.isPrefixOf_iff_prefix, hlist, ← hsplit,
        ← String.toList_inj, hlist, ← hsplit]
      cases hrest : body.dropWhile (· != '=') with
      | nil => exact .inl rfl
      | cons ch rest =>
          have hch := List.head?_dropWhile_not (· != '=') body
          rw [hrest] at hch
          have heq : ch = '=' := by simpa using hch
          rw [heq]
          exact .inr ⟨rest, rfl⟩
  · cases h
  · cases h

end

/-! ### Lists of events -/

section

variable {κ : Type} {g : Grammar κ} {c : κ} {es es' es₁ es₂ : List Event} {o : Opt}
  {v : Option String} {ids : List String}

/-- An option other than `--lab`. -/
def Other (o : Opt) : Prop := o.id ≠ "lab"

theorem labWord_append (h : ∀ e ∈ es, g.Settled c Other e) : labWord (es ++ es') = labWord es' := by
  have hnone : labWord es = false := by
    refine List.any_eq_false.mpr fun e he => ?_
    obtain ⟨o, v, rfl, -⟩ := h e he
    exact Bool.false_ne_true
  have happend : labWord (es ++ es') = (labWord es || labWord es') := List.any_append
  rw [happend, hnone, Bool.false_or]

theorem exposed_append (h : ∀ e ∈ es, g.Settled c Other e) : exposed (es ++ es') = exposed es' := by
  induction es with
  | nil => rfl
  | cons e es ih =>
      have htail := ih fun e he => h e (List.mem_cons_of_mem _ he)
      obtain ⟨o, v, rfl, -, -, hv⟩ := h e List.mem_cons_self
      cases v with
      | some v => exact htail
      | none =>
          have htakes : (o.takes == .optional) = false := by
            rw [hv rfl]
            rfl
          rw [List.cons_append, exposed, htakes, Bool.false_and, Bool.false_or, htail]

theorem dropLab_append (h : ∀ e ∈ es, g.Settled c Other e) :
    dropLab (es ++ es') = es ++ dropLab es' := by
  rw [dropLab, List.filter_append, List.filter_eq_self.mpr, dropLab]
  intro e he
  obtain ⟨o, v, rfl, -, ho, -⟩ := h e he
  exact bne_iff_ne.mpr ho

theorem dropLab_other (ho : Other o) : dropLab (.opt o v :: es) = .opt o v :: dropLab es :=
  List.filter_cons_of_pos (bne_iff_ne.mpr ho)

theorem labWord_word {w : String} (h : isLab w = false) : labWord (.word w :: es) = labWord es := by
  have hcons : labWord (.word w :: es) = (isLab w || labWord es) := rfl
  rw [hcons, h, Bool.false_or]

theorem offered_append (h : ∀ e ∈ es, g.Settled c Other e) (hne : es ≠ []) :
    offered (es ++ es') = false := by
  cases es with
  | nil => exact absurd rfl hne
  | cons e es =>
      obtain ⟨o, v, rfl, -, ho, -⟩ := h e List.mem_cons_self
      rw [List.cons_append, offered, beq_false_of_ne ho, Bool.false_and]

theorem offered_opt (h : ∀ e ∈ es, g.Settled c Other e) (ho : Other o) :
    offered (es ++ .opt o v :: es') = false := by
  cases es with
  | nil => rw [List.nil_append, offered, beq_false_of_ne ho, Bool.false_and]
  | cons e es => exact offered_append h (List.cons_ne_nil e es)

/-- Settled options in front of two lines take no part in what sets them apart. -/
theorem hide_append_cancel (h : ∀ e ∈ es, g.Settled c Other e)
    (heq : (collect (es ++ es₁)).hide ids globals = (collect (es ++ es₂)).hide ids globals) :
    (collect es₁).hide ids globals = (collect es₂).hide ids globals := by
  induction es with
  | nil => exact heq
  | cons e es ih =>
      obtain ⟨o, v, rfl, -⟩ := h e List.mem_cons_self
      exact ih (fun e he => h e (List.mem_cons_of_mem _ he)) (Matches.hide_opt_cancel heq)

theorem labWord_words (ws : List String) : labWord (ws.map .word) = ws.any isLab := by
  rw [labWord, List.any_map]
  rfl

theorem exposed_words (ws : List String) : exposed (ws.map .word) = false := by
  induction ws with
  | nil => rfl
  | cons w ws ih => exact ih

theorem dropLab_words (ws : List String) : dropLab (ws.map .word) = ws.map .word := by
  refine List.filter_eq_self.mpr fun e he => ?_
  obtain ⟨w, -, rfl⟩ := List.mem_map.mp he
  rfl

end

/-! ### The line without the option -/

/-- Nothing of the line depends on the option. -/
def Clean (es : List Event) : Prop := labWord es = false ∧ exposed es = false

section

variable {κ : Type} {cli : Parser κ} {c : κ} {n : Nat} {arg : String} {args : List String}
  {es : List Event}

theorem reads_lab : cli.reads c n "--lab" = .needs [] labOpt := by
  rw [Grammar.reads, token_lab]
  simp only [cli.long_lab]
  rfl

theorem reads_labEq (cli : Parser κ) (c : κ) (n : Nat) (h : isLab arg = true)
    (hne : arg ≠ "--lab") : ∃ v, cli.reads c n arg = .given [.opt labOpt (some v)] := by
  obtain ⟨v, hv⟩ := token_labEq h hne
  refine ⟨v, ?_⟩
  rw [Grammar.reads, hv]
  simp only [cli.long_lab]
  rfl

theorem yields_other (cli : Parser κ) (c : κ) (n : Nat) (h : isLab arg = false) :
    cli.Yields c Other (cli.reads c n arg) := by
  refine Grammar.yields_reads (cli.short_ne_lab c) fun name value o htoken ho hid => ?_
  rw [cli.eq_lab c name o ho hid] at htoken
  rw [isLab_of_token htoken] at h
  cases h

/-- The option is read with its value; other arguments are no such option. -/
theorem isLab_cases (cli : Parser κ) (c : κ) (n : Nat) (arg : String) :
    (arg = "--lab" ∧ cli.reads c n arg = .needs [] labOpt) ∨
      (∃ v, isLab arg = true ∧ arg ≠ "--lab" ∧
        cli.reads c n arg = .given [.opt labOpt (some v)]) ∨
      isLab arg = false := by
  by_cases harg : arg = "--lab"
  · subst harg
    exact .inl ⟨rfl, reads_lab⟩
  · cases hlab : isLab arg with
    | false => exact .inr (.inr rfl)
    | true =>
        obtain ⟨v, hv⟩ := reads_labEq cli c n hlab harg
        exact .inr (.inl ⟨v, rfl, harg, hv⟩)

variable (cli) in
/-- The events of a line, with what the edited list makes of each argument. -/
inductive Edits : κ → Nat → List String → List Event → Prop where
  | nil {c : κ} {n : Nat} : Edits c n [] []
  | lab {c : κ} {n : Nat} (front : List String) {args : List String} (v : String)
      {es : List Event} (hfront : ∀ rest, stripLabOption (front ++ rest) = stripLabOption rest)
      (tail : Edits c n args es) : Edits c n (front ++ args) (.opt labOpt (some v) :: es)
  | given {c : κ} {n : Nat} {arg : String} {args : List String} {es es' : List Event}
      (hlab : isLab arg = false) (hvalue : isValue arg = false)
      (h : cli.reads c n arg = .given es) (hes : ∀ e ∈ es, cli.Settled c Other e)
      (hne : es ≠ []) (tail : Edits c n args es') : Edits c n (arg :: args) (es ++ es')
  | takes {c : κ} {n : Nat} {arg v : String} {args : List String} {es es' : List Event} {o : Opt}
      (hlab : isLab arg = false) (hvalue : isValue arg = false) (h : cli.Looks c n arg es o)
      (hes : ∀ e ∈ es, cli.Settled c Other e) (ho : Other o) (hv : isValue v = true)
      (tail : Edits c n args es') : Edits c n (arg :: v :: args) (es ++ .opt o (some v) :: es')
  | leaves {c : κ} {n : Nat} {arg : String} {args : List String} {es es' : List Event} {o : Opt}
      (hlab : isLab arg = false) (hvalue : isValue arg = false)
      (h : cli.reads c n arg = .mayTake es o) (hes : ∀ e ∈ es, cli.Settled c Other e)
      (ho : Other o) (hknown : cli.Known c o) (htakes : o.takes = .optional)
      (tail : Edits c n args es') : Edits c n (arg :: args) (es ++ .opt o none :: es')
  | word {c : κ} {n : Nat} {arg : String} {args : List String} {es : List Event}
      (hlab : isLab arg = false) (h : cli.reads c n arg = .word)
      (tail : Edits c (n + 1) args es) : Edits c n (arg :: args) (.word arg :: es)
  | rest {c : κ} {n : Nat} {arg : String} {args : List String} {es : List Event}
      (hlab : isLab arg = false) (h : cli.reads c n arg = .rest)
      (tail : cli.words c (n + 1) args = some es) : Edits c n (arg :: args) (.word arg :: es)
  | escape {c : κ} {n : Nat} {arg : String} {args : List String} {es : List Event}
      (hlab : isLab arg = false) (h : cli.reads c n arg = .escape)
      (tail : cli.words c n args = some es) : Edits c n (arg :: args) (.escape :: es)
  | enter {c sub : κ} {n : Nat} {arg : String} {args : List String} {es : List Event}
      (hlab : isLab arg = false) (h : cli.reads c n arg = .enter sub)
      (tail : Edits sub 0 args es) : Edits c n (arg :: args) (.enter arg :: es)

theorem edits_of_scans (h : cli.Scans c n args es) : Edits cli c n args es := by
  -- an argument that is not read as the option is not spelled like it
  have hother : ∀ {c : κ} {n : Nat} {arg : String} {r : Reading κ}, cli.reads c n arg = r →
      r ≠ .needs [] labOpt → (∀ v, r ≠ .given [.opt labOpt (some v)]) → isLab arg = false := by
    intro c n arg r hr hneeds hgiven
    rcases isLab_cases cli c n arg with ⟨-, h⟩ | ⟨v, -, -, h⟩ | h
    · exact absurd (hr.symm.trans h) hneeds
    · exact absurd (hr.symm.trans h) (hgiven v)
    · exact h
  induction h with
  | nil => exact .nil
  | @given c n arg args es es' h tail ih =>
      rcases isLab_cases cli c n arg with ⟨-, hr⟩ | ⟨v, hlab, hne, hr⟩ | hlab
      · rw [h] at hr
        cases hr
      · rw [h] at hr
        cases hr
        exact .lab [arg] v (fun rest => stripLabOption_labEq hlab hne) ih
      · have hes : cli.Yields c Other (.given es) := h ▸ yields_other cli c n hlab
        exact .given hlab (Grammar.isValue_eq h rfl) h hes (Grammar.given_ne_nil h) ih
  | @takes c n arg v args es es' o h hv tail ih =>
      rcases isLab_cases cli c n arg with ⟨rfl, hr⟩ | ⟨v', -, -, hr⟩ | hlab
      · have heq : es = [] ∧ o = labOpt := by
          rcases h with h | h
          · rw [h] at hr
            exact Reading.needs.inj hr
          · rw [h] at hr
            cases hr
        rw [heq.1, heq.2]
        exact .lab ["--lab", v] v (fun rest => stripLabOption_lab) ih
      · rcases h with h | h
        · rw [h] at hr
          cases hr
        · rw [h] at hr
          cases hr
      · have hyields := yields_other cli c n hlab
        rcases h with h | h
        · rw [h] at hyields
          exact .takes hlab (Grammar.isValue_eq h rfl) (.inl h) hyields.1 hyields.2.2 hv ih
        · rw [h] at hyields
          exact .takes hlab (Grammar.isValue_eq h rfl) (.inr h) hyields.1 hyields.2.2.1 hv ih
  | @leaves c n arg args es es' o h hargs tail ih =>
      have hlab : isLab arg = false := hother h (by simp) (by simp)
      have hyields := yields_other cli c n hlab
      rw [h] at hyields
      obtain ⟨hes, hknown, ho, htakes⟩ := hyields
      exact .leaves hlab (Grammar.isValue_eq h rfl) h hes ho hknown htakes ih
  | word h tail ih => exact .word (hother h (by simp) (by simp)) h ih
  | rest h tail => exact .rest (hother h (by simp) (by simp)) h tail
  | escape h tail => exact .escape (hother h (by simp) (by simp)) h tail
  | enter h tail ih => exact .enter (hother h (by simp) (by simp)) h ih

/-- Without the option the line begins with something that can be a value if the events offer
one. -/
theorem offered_iff (h : Edits cli c n args es) :
    offered es = true ↔ ∃ w ∈ (stripLabOption args).head?, isValue w = true := by
  have hhead : ∀ {arg : String} {args : List String} {b : Bool}, isLab arg = false →
      isValue arg = b →
      (b = true ↔ ∃ w ∈ (stripLabOption (arg :: args)).head?, isValue w = true) := by
    intro arg args b hlab hb
    rw [stripLabOption_cons hlab, List.head?_cons, ← hb]
    constructor
    · exact fun h => ⟨arg, rfl, h⟩
    · rintro ⟨w, hw, hvalue⟩
      cases hw
      exact hvalue
  induction h with
  | nil =>
      constructor
      · exact fun h => absurd h Bool.false_ne_true
      · rintro ⟨w, hw, -⟩
        exact absurd hw (Option.not_mem_none w)
  | lab front v hfront _ ih =>
      rw [hfront]
      exact ih
  | given hlab hvalue h hes hne _ _ =>
      rw [offered_append hes hne]
      exact hhead hlab hvalue
  | takes hlab hvalue h hes ho _ _ _ =>
      rw [offered_opt hes ho]
      exact hhead hlab hvalue
  | leaves hlab hvalue h hes ho _ _ _ _ =>
      rw [offered_opt hes ho]
      exact hhead hlab hvalue
  | word hlab h _ _ => exact hhead hlab rfl
  | rest hlab h _ => exact hhead hlab rfl
  | escape hlab h _ => exact hhead hlab (Grammar.isValue_eq h rfl)
  | enter hlab h _ _ => exact hhead hlab (Grammar.isValue_eq h rfl)

theorem isLab_of_isValue {v : String} (h : isValue v = true) : isLab v = false := by
  cases hlab : isLab v with
  | false => rfl
  | true =>
      by_cases hv : v = "--lab"
      · rw [hv, isValue, token_lab] at h
        exact absurd h (by decide)
      · obtain ⟨w, hw⟩ := token_labEq hlab hv
        rw [isValue, hw] at h
        exact absurd h Bool.false_ne_true

theorem exposed_leaves {es' : List Event} {o : Opt} (hes : ∀ e ∈ es, cli.Settled c Other e)
    (htakes : o.takes = .optional) :
    exposed (es ++ .opt o none :: es') = (offered es' || exposed es') := by
  rw [exposed_append hes, exposed, htakes]
  rfl

/-- A line that does not depend on the option is read without it as before. -/
theorem scan_of_clean (h : Edits cli c n args es) (hclean : Clean es) :
    cli.scan c n (stripLabOption args) = some (dropLab es) := by
  have hwords : ∀ {c : κ} {n : Nat} {args : List String} {es : List Event},
      cli.words c n args = some es → labWord es = false →
      cli.words c n (stripLabOption args) = some (dropLab es) := by
    intro c n args es htail hword
    have hes := Grammar.words_eq htail
    rw [hes, labWord_words, List.any_eq_false] at hword
    have hnone : ∀ a ∈ args, isLab a = false := fun a ha =>
      Bool.eq_false_of_not_eq_true (hword a ha)
    rw [stripLabOption_eq_self hnone, htail, hes, dropLab_words]
  induction h with
  | nil => rfl
  | lab front v hfront _ ih =>
      rw [hfront]
      exact ih hclean
  | given hlab _ h hes _ _ ih =>
      rw [Clean, labWord_append hes, exposed_append hes] at hclean
      rw [stripLabOption_cons hlab, Grammar.scan_given h, ih hclean, dropLab_append hes]
      rfl
  | takes hlab _ h hes ho hv _ ih =>
      rw [Clean, labWord_append hes, exposed_append hes] at hclean
      rw [stripLabOption_cons hlab, stripLabOption_cons (isLab_of_isValue hv),
        Grammar.scan_takes h hv, ih hclean, dropLab_append hes, dropLab_other ho]
      rfl
  | @leaves c n arg args es es' o hlab _ h hes ho _ htakes tail ih =>
      rw [Clean, labWord_append hes, exposed_leaves hes htakes, Bool.or_eq_false_iff] at hclean
      have hhead : ∀ v ∈ (stripLabOption args).head?, isValue v = false := by
        intro v hv
        refine Bool.eq_false_of_not_eq_true fun hvalue => ?_
        rw [(offered_iff tail).mpr ⟨v, hv, hvalue⟩] at hclean
        exact Bool.noConfusion hclean.2.1
      rw [stripLabOption_cons hlab, Grammar.scan_leaves h hhead, ih ⟨hclean.1, hclean.2.2⟩,
        dropLab_append hes, dropLab_other ho]
      rfl
  | word hlab h _ ih =>
      rw [Clean, labWord_word hlab] at hclean
      rw [stripLabOption_cons hlab, Grammar.scan_word h, ih hclean]
      rfl
  | rest hlab h tail =>
      rw [Clean, labWord_word hlab] at hclean
      rw [stripLabOption_cons hlab, Grammar.scan_rest h, hwords tail hclean.1]
      rfl
  | escape hlab h tail =>
      rw [stripLabOption_cons hlab, Grammar.scan_escape h, hwords tail hclean.1]
      rfl
  | enter hlab h _ ih =>
      rw [stripLabOption_cons hlab, Grammar.scan_enter h, ih hclean]
      rfl

/-- If the line is read to the same end without the option, it does not depend on it. -/
theorem clean_of_alike {ids : List String}
    (hids : ∀ o, cli.Known c o → o.id ∈ ids → o.takes ≠ .optional)
    (hglobals : ∀ c o, cli.Known c o → o.id ∈ globals → o.takes ≠ .optional)
    (hlab : "lab" ∈ ids) (h : Edits cli c n args es) {es' : List Event}
    (hscan : cli.scan c n (stripLabOption args) = some es')
    (halike : (collect es').hide ids globals = (collect es).hide ids globals) : Clean es := by
  have hwords : ∀ {ids : List String} {c : κ} {n : Nat} {args : List String}
      {es es' : List Event}, cli.words c n args = some es →
      cli.words c n (stripLabOption args) = some es' →
      (collect es').hide ids globals = (collect es).hide ids globals → Clean es := by
    intro ids c n args es es' htail hstrip halike
    rw [Grammar.words_eq htail, Grammar.words_eq hstrip, collect_words, collect_words] at halike
    have hsame : stripLabOption args = args := congrArg (fun m => m.top.words) halike
    rw [Grammar.words_eq htail]
    refine ⟨?_, exposed_words args⟩
    rw [labWord_words, List.any_eq_false]
    intro a ha
    rw [← hsame] at ha
    rw [isLab_of_mem ha]
    exact Bool.false_ne_true
  induction h generalizing ids es' with
  | nil => exact ⟨rfl, rfl⟩
  | lab front v hfront _ ih =>
      rw [hfront] at hscan
      refine ih hids hlab hscan ?_
      rw [halike, collect_cons, Matches.hide_opt_of_mem hlab]
  | given hother _ h hes _ _ ih =>
      rw [stripLabOption_cons hother, Grammar.scan_given h, Option.map_eq_some_iff] at hscan
      obtain ⟨es'', hscan, rfl⟩ := hscan
      rw [Clean, labWord_append hes, exposed_append hes]
      exact ih hids hlab hscan (hide_append_cancel hes halike)
  | takes hother _ h hes ho hv _ ih =>
      rw [stripLabOption_cons hother, stripLabOption_cons (isLab_of_isValue hv),
        Grammar.scan_takes h hv, Option.map_eq_some_iff] at hscan
      obtain ⟨es'', hscan, rfl⟩ := hscan
      rw [Clean, labWord_append hes, exposed_append hes]
      exact ih hids hlab hscan (Matches.hide_opt_cancel (hide_append_cancel hes halike))
  | @leaves c n arg args es es₁ o hother _ h hes ho hknown htakes tail ih =>
      rw [stripLabOption_cons hother] at hscan
      have hoffered : offered es₁ = false := by
        refine Bool.eq_false_of_not_eq_true fun hoffered => ?_
        obtain ⟨w, hw, hvalue⟩ := (offered_iff tail).mp hoffered
        obtain ⟨rest, hrest⟩ := List.head?_eq_some_iff.mp hw
        rw [hrest, Grammar.scan_takes (.inr h) hvalue, Option.map_eq_some_iff] at hscan
        obtain ⟨es'', hscan, rfl⟩ := hscan
        exact Matches.hide_opt_ne (fun hid => hids o hknown hid htakes) (Option.some_ne_none w)
          (hide_append_cancel hes halike)
      have hhead : ∀ v ∈ (stripLabOption args).head?, isValue v = false := by
        intro v hv
        refine Bool.eq_false_of_not_eq_true fun hvalue => ?_
        rw [(offered_iff tail).mpr ⟨v, hv, hvalue⟩] at hoffered
        exact Bool.noConfusion hoffered
      rw [Grammar.scan_leaves h hhead, Option.map_eq_some_iff] at hscan
      obtain ⟨es'', hscan, rfl⟩ := hscan
      have hclean := ih hids hlab hscan
        (Matches.hide_opt_cancel (hide_append_cancel hes halike))
      rw [Clean, labWord_append hes, exposed_leaves hes htakes, hoffered]
      exact hclean
  | word hother h _ ih =>
      rw [stripLabOption_cons hother, Grammar.scan_word h, Option.map_eq_some_iff] at hscan
      obtain ⟨es'', hscan, rfl⟩ := hscan
      rw [Clean, labWord_word hother]
      exact ih hids hlab hscan (Matches.hide_word_cancel halike)
  | rest hother h tail =>
      rw [stripLabOption_cons hother, Grammar.scan_rest h, Option.map_eq_some_iff] at hscan
      obtain ⟨es'', hscan, rfl⟩ := hscan
      rw [Clean, labWord_word hother]
      exact hwords tail hscan (Matches.hide_word_cancel halike)
  | escape hother h tail =>
      rw [stripLabOption_cons hother, Grammar.scan_escape h, Option.map_eq_some_iff] at hscan
      obtain ⟨es'', hscan, rfl⟩ := hscan
      have hclean := hwords tail hscan halike
      exact hclean
  | enter hother h _ ih =>
      rw [stripLabOption_cons hother, Grammar.scan_enter h, Option.map_eq_some_iff] at hscan
      obtain ⟨es'', hscan, rfl⟩ := hscan
      exact ih (hglobals _) List.mem_cons_self hscan (Matches.hide_enter_cancel halike)

end

end Reexec

end Cli

end Paniolo
