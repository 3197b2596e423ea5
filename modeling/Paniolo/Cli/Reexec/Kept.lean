import Paniolo.Cli.Reexec

/-!
# What is kept of a command

The arguments in front of the edited list, and the command that the other
process reads: it is the one of this process exactly when its line does not
depend on the option that was taken out and the plugin roots are not given
twice. The parser of `hid send` and `serial set` shows both sides.
-/

namespace Paniolo

namespace Cli

namespace Reexec

open CommandLine (token isValue)

open Argv

/-! ### The arguments in front -/

section

variable {es : List Event} {k : String}

/-- Without `--lab` the other options are as they were. -/
theorem given_dropLab (es : List Event) (k : String) :
    (collect (dropLab es)).top.given k = if k = "lab" then [] else (collect es).top.given k := by
  induction es with
  | nil => exact (ite_self _).symm
  | cons e es ih =>
      cases e with
      | opt o v =>
          by_cases ho : o.id = "lab"
          · have hdrop : dropLab (.opt o v :: es) = dropLab es :=
              List.filter_cons_of_neg fun h => bne_iff_ne.mp h ho
            rw [hdrop, ih]
            by_cases hk : k = "lab"
            · rw [if_pos hk, if_pos hk]
            · have hne : k ≠ o.id := fun h => hk (h.trans ho)
              rw [if_neg hk, if_neg hk]
              exact (if_neg hne).symm
          · rw [dropLab_other ho]
            change (if k = o.id then v :: (collect (dropLab es)).top.given k else
                (collect (dropLab es)).top.given k) =
              if k = "lab" then [] else if k = o.id then v :: (collect es).top.given k else
                (collect es).top.given k
            rw [ih]
            by_cases hk : k = "lab"
            · have hne : k ≠ o.id := fun h => ho (h.symm.trans hk)
              rw [if_neg hne, if_pos hk, if_pos hk]
            · rw [if_neg hk, if_neg hk]
      | word w => exact ih
      | escape => exact ih
      | enter name => exact (ite_self _).symm

theorem hide_dropLab (es : List Event) {ids : List String} (hlab : "lab" ∈ ids) :
    (collect (dropLab es)).hide ids globals = (collect es).hide ids globals := by
  induction es generalizing ids with
  | nil => rfl
  | cons e es ih =>
      cases e with
      | opt o v =>
          by_cases ho : o.id = "lab"
          · have hdrop : dropLab (.opt o v :: es) = dropLab es :=
              List.filter_cons_of_neg fun h => bne_iff_ne.mp h ho
            rw [hdrop, ih hlab, collect_cons, Matches.hide_opt_of_mem (ho ▸ hlab)]
          · rw [dropLab_other ho, collect_cons, collect_cons]
            by_cases hid : o.id ∈ ids
            · rw [Matches.hide_opt_of_mem hid, Matches.hide_opt_of_mem hid, ih hlab]
            · rw [Matches.hide_opt_of_notMem hid, Matches.hide_opt_of_notMem hid, ih hlab]
      | word w =>
          have htail := ih hlab
          have hadd : ∀ m : Matches, (m.add (.word w)).hide ids globals =
              (m.hide ids globals).add (.word w) := fun _ => rfl
          change (((collect (dropLab es)).add (.word w)).hide ids globals) = _
          rw [hadd, htail]
          rfl
      | escape => exact ih hlab
      | enter name =>
          have htail := @ih globals List.mem_cons_self
          have hadd : ∀ m : Matches, (m.add (.enter name)).hide ids globals =
              ⟨Level.empty.hide ids, (name, (m.hide globals globals).top) ::
                (m.hide globals globals).subs⟩ := fun _ => rfl
          change (((collect (dropLab es)).add (.enter name)).hide ids globals) = _
          rw [hadd, htail]
          rfl

theorem once_dropLab (h : once es = true) : once (dropLab es) = true := by
  induction es with
  | nil => rfl
  | cons e es ih =>
      cases e with
      | opt o v =>
          rw [once, Bool.and_eq_true] at h
          by_cases ho : o.id = "lab"
          · have hdrop : dropLab (.opt o v :: es) = dropLab es :=
              List.filter_cons_of_neg fun h => bne_iff_ne.mp h ho
            rw [hdrop]
            exact ih h.2
          · rw [dropLab_other ho, once, ih h.2, given_dropLab, if_neg ho, h.1]
            rfl
      | word w => exact ih h
      | escape => exact ih h
      | enter name => exact ih h

theorem lab_subs (es : List Event) :
    ∀ s ∈ (collect (dropLab es)).subs, s.2.value "lab" = none := by
  induction es with
  | nil => exact fun s hs => absurd hs List.not_mem_nil
  | cons e es ih =>
      cases e with
      | opt o v =>
          by_cases ho : o.id = "lab"
          · have hdrop : dropLab (.opt o v :: es) = dropLab es :=
              List.filter_cons_of_neg fun h => bne_iff_ne.mp h ho
            rw [hdrop]
            exact ih
          · rw [dropLab_other ho]
            exact ih
      | word w => exact ih
      | escape => exact ih
      | enter name =>
          intro s hs
          rcases List.mem_cons.mp hs with rfl | hs
          · have hgiven : (collect (dropLab es)).top.given "lab" = [] := by
              rw [given_dropLab, if_pos rfl]
            exact congrArg (fun vs => vs.getLast?.join) hgiven
          · exact ih s hs

end

/-- What the arguments in front of the edited list say. -/
def front (host : Host) (remotePath : String) (jsonRequested : Bool) : List Event :=
  (host.pluginPath.map fun p => .opt pluginPathOpt (some p)).toList ++
    .opt labOpt (some remotePath) ::
      (if jsonRequested then [.opt jsonErrorsOpt none] else [])

section

variable {κ : Type} (cli : Parser κ) (host : Host) {remotePath : String} (jsonRequested : Bool)

theorem token_pluginPath (p : String) :
    token ("--plugin-path=" ++ p) = .long "plugin-path" (some p) := by
  rw [CommandLine.token, String.toList_append]
  change CommandLine.Token.long "plugin-path" (some (String.ofList p.toList)) = _
  rw [String.ofList_toList]

theorem token_jsonErrors : token "--json-errors" = .long "json-errors" none := by decide

theorem isValue_slicePath (pid stamp : Nat) : isValue (slicePath pid stamp) = true := by
  refine CommandLine.isValue_of_head ?_
  simp [slicePath, String.toList_append]

theorem scan_front (hvalue : isValue remotePath = true) (rest : List String) :
    cli.scan cli.root 0 (remoteArgv host remotePath jsonRequested rest).tail =
      (cli.scan cli.root 0 rest).map (front host remotePath jsonRequested ++ ·) := by
  have hjson : cli.scan cli.root 0 ((jsonErrorsArg jsonRequested).toList ++ rest) =
      (cli.scan cli.root 0 rest).map
        ((if jsonRequested then [Event.opt jsonErrorsOpt none] else []) ++ ·) := by
    cases jsonRequested with
    | false => exact (Option.map_id_apply).symm
    | true =>
        refine Grammar.scan_given ?_
        rw [Grammar.reads, token_jsonErrors]
        simp only [cli.long_jsonErrors]
        rfl
  have hlab : cli.scan cli.root 0
      ("--lab" :: remotePath :: ((jsonErrorsArg jsonRequested).toList ++ rest)) =
      (cli.scan cli.root 0 rest).map ((Event.opt labOpt (some remotePath) ::
        (if jsonRequested then [Event.opt jsonErrorsOpt none] else [])) ++ ·) := by
    rw [Grammar.scan_takes (.inl reads_lab) hvalue, hjson, Option.map_map]
    rfl
  cases hplugin : host.pluginPath with
  | none =>
      have hargs : (remoteArgv host remotePath jsonRequested rest).tail =
          "--lab" :: remotePath :: ((jsonErrorsArg jsonRequested).toList ++ rest) := by
        rw [remoteArgv, Host.panioloArgv, hplugin]
        simp
      rw [hargs, hlab, front, hplugin]
      rfl
  | some p =>
      have hargs : (remoteArgv host remotePath jsonRequested rest).tail =
          ("--plugin-path=" ++ p) ::
            "--lab" :: remotePath :: ((jsonErrorsArg jsonRequested).toList ++ rest) := by
        rw [remoteArgv, Host.panioloArgv, hplugin]
        simp
      have hread : cli.reads cli.root 0 ("--plugin-path=" ++ p) =
          .given [.opt pluginPathOpt (some p)] := by
        rw [Grammar.reads, token_pluginPath]
        simp only [cli.long_pluginPath]
        rfl
      rw [hargs, Grammar.scan_given hread, hlab, Option.map_map, front, hplugin]
      rfl

variable (remotePath) (es : List Event)

theorem payload_front :
    payload (collect (front host remotePath jsonRequested ++ es)) = payload (collect es) := by
  have hlab : ∀ es, payload (collect (.opt labOpt (some remotePath) :: es)) =
      payload (collect es) := fun es => Matches.hide_opt_of_mem (by decide) _ _
  have hplugin : ∀ p es, payload (collect (.opt pluginPathOpt (some p) :: es)) =
      payload (collect es) := fun p es => Matches.hide_opt_of_mem (by decide) _ _
  have hjson : ∀ es, payload (collect (.opt jsonErrorsOpt none :: es)) =
      payload (collect es) := fun es => Matches.hide_opt_of_mem (by decide) _ _
  rw [front]
  cases host.pluginPath with
  | none =>
      cases jsonRequested with
      | false => exact hlab es
      | true => exact (hlab _).trans (hjson es)
  | some p =>
      cases jsonRequested with
      | false => exact (hplugin p _).trans (hlab es)
      | true => exact (hplugin p _).trans ((hlab _).trans (hjson es))

theorem subs_front :
    (collect (front host remotePath jsonRequested ++ es)).subs = (collect es).subs := by
  rw [front]
  cases host.pluginPath with
  | none => cases jsonRequested with
      | false => rfl
      | true => rfl
  | some p => cases jsonRequested with
      | false => rfl
      | true => rfl

theorem lab_front :
    (collect (front host remotePath jsonRequested ++ es)).top.given "lab" =
      some remotePath :: (collect es).top.given "lab" := by
  rw [front]
  cases host.pluginPath with
  | none => cases jsonRequested with
      | false => rfl
      | true => rfl
  | some p => cases jsonRequested with
      | false => rfl
      | true => rfl

theorem pluginPath_front {p : String} (h : host.pluginPath = some p) :
    (collect (front host remotePath jsonRequested ++ es)).top.given "plugin_path" =
      some p :: (collect es).top.given "plugin_path" := by
  rw [front, h]
  cases jsonRequested with
  | false => rfl
  | true => rfl

theorem once_front :
    once (front host remotePath jsonRequested ++ es) =
      ((host.pluginPath.isNone || (collect es).top.given "plugin_path" == []) &&
        ((collect es).top.given "lab" == [] && once es)) := by
  rw [front]
  cases host.pluginPath with
  | none => cases jsonRequested with
      | false => rfl
      | true => rfl
  | some p => cases jsonRequested with
      | false => rfl
      | true => rfl

end

/-! ### The command over there -/

section

variable {κ : Type} (cli : Parser κ)

/-- The options of `Cli` take a value or none. -/
theorem takes_of_globals (c : κ) (o : Opt) (hknown : cli.Known c o) (hid : o.id ∈ globals) :
    o.takes ≠ .optional := by
  rcases List.mem_cons.mp hid with hlab | hjson
  · rcases hknown with ⟨name, hname⟩ | ⟨ch, hch⟩
    · have heq := cli.eq_lab c name o hname hlab
      rw [heq, cli.long_lab] at hname
      cases hname
      decide
    · exact absurd hlab (cli.short_ne_lab c ch o hch)
  · rw [cli.eq_jsonErrors c o hknown (List.mem_singleton.mp hjson)]
    decide

theorem takes_of_own (o : Opt) (hknown : cli.Known cli.root o) (hid : o.id ∈ own) :
    o.takes ≠ .optional := by
  rcases List.mem_cons.mp hid with hplugin | hglobal
  · rw [cli.eq_pluginPath o hknown hplugin]
    decide
  · exact takes_of_globals cli cli.root o hknown hglobal

variable {cli} {args : List String} {m : Matches}

theorem tryParseFrom_eq_some (h : cli.tryParseFrom args = some m) :
    cli.scan cli.root 0 args = some (cli.events args) ∧ once (cli.events args) = true ∧
      cli.check (payload m) = true ∧ collect (cli.events args) = m := by
  obtain ⟨es, hscan, hes⟩ := Option.bind_eq_some_iff.mp h
  have hevents : cli.events args = es := by rw [Parser.events, hscan, Option.getD_some]
  split at hes
  · next hcheck =>
      rw [Bool.and_eq_true] at hcheck
      have hm := Option.some.inj hes
      rw [hm] at hcheck
      rw [hevents]
      exact ⟨hscan, hcheck.1, hcheck.2, hm⟩
  · cases hes

variable {host : Host} {remotePath : String} {jsonRequested : Bool}

theorem path_payload (m : Matches) : (payload m).path = m.path := by
  rw [Matches.path, payload, Matches.hide, List.map_map]
  rfl

/-- What the other process reads is what the edited list says, behind the arguments in front. -/
theorem remote_eq_some (hvalue : isValue remotePath = true) {m' : Matches}
    (h : cli.tryParseFrom (remoteArgv host remotePath jsonRequested (stripLabOption args)).tail =
      some m') :
    ∃ es, cli.scan cli.root 0 (stripLabOption args) = some es ∧
      once (front host remotePath jsonRequested ++ es) = true ∧
      collect (front host remotePath jsonRequested ++ es) = m' := by
  obtain ⟨es, hscan, hes⟩ := Option.bind_eq_some_iff.mp h
  rw [scan_front cli host jsonRequested hvalue, Option.map_eq_some_iff] at hscan
  obtain ⟨es, hscan, rfl⟩ := hscan
  split at hes
  · next hcheck =>
      rw [Bool.and_eq_true] at hcheck
      exact ⟨es, hscan, hcheck.1, Option.some.inj hes⟩
  · cases hes

/-- If the command is kept, it does not depend on the option, nor are there plugin roots twice. -/
theorem clean_of_keeps (h : cli.tryParseFrom args = some m) (hvalue : isValue remotePath = true)
    (hkeeps : Keeps cli host remotePath jsonRequested args m) :
    Clean (cli.events args) ∧ (host.pluginPath = none ∨ m.top.given "plugin_path" = []) := by
  obtain ⟨hscan, -, -, hm⟩ := tryParseFrom_eq_some h
  obtain ⟨m', hparse, -, hpayload, -, -⟩ := hkeeps
  obtain ⟨es, hstrip, honce, rfl⟩ := remote_eq_some hvalue hparse
  rw [payload_front, ← hm] at hpayload
  have hedits := edits_of_scans (Grammar.scans_of_scan hscan)
  have hclean := clean_of_alike (takes_of_own cli) (takes_of_globals cli)
    (List.mem_cons_of_mem _ List.mem_cons_self) hedits hstrip hpayload
  have hes : es = dropLab (cli.events args) := by
    rw [scan_of_clean hedits hclean] at hstrip
    exact (Option.some.inj hstrip).symm
  rw [once_front, Bool.and_eq_true, Bool.or_eq_true, Option.isNone_iff_eq_none, beq_iff_eq, hes,
    given_dropLab, hm] at honce
  exact ⟨hclean, honce.1⟩

/-- A command that does not depend on the option is kept. -/
theorem keeps_of_clean (h : cli.tryParseFrom args = some m) (hvalue : isValue remotePath = true)
    (hclean : Clean (cli.events args))
    (hplugin : host.pluginPath = none ∨ m.top.given "plugin_path" = []) :
    Keeps cli host remotePath jsonRequested args m := by
  obtain ⟨hscan, honce, hcheck, hm⟩ := tryParseFrom_eq_some h
  have hstrip := scan_of_clean (edits_of_scans (Grammar.scans_of_scan hscan)) hclean
  have hpayload : payload (collect (front host remotePath jsonRequested ++
      dropLab (cli.events args))) = payload m := by
    have hmem : "lab" ∈ own := List.mem_cons_of_mem _ List.mem_cons_self
    rw [payload_front, payload, hide_dropLab _ hmem, hm]
    rfl
  have hgiven : ∀ k, k ≠ "lab" →
      (collect (dropLab (cli.events args))).top.given k = m.top.given k := by
    intro k hk
    rw [given_dropLab, if_neg hk, hm]
  have hlab : (collect (dropLab (cli.events args))).top.given "lab" = [] := by
    rw [given_dropLab, if_pos rfl]
  have hfront : once (front host remotePath jsonRequested ++ dropLab (cli.events args)) = true := by
    rw [once_front, hgiven "plugin_path" (by decide), hlab, once_dropLab honce]
    rcases hplugin with hnone | hnil
    · rw [hnone]
      rfl
    · rw [hnil]
      exact congrArg (· && true) (Bool.or_true _)
  refine ⟨collect (front host remotePath jsonRequested ++ dropLab (cli.events args)), ?_, ?_,
    hpayload, ?_, ?_⟩
  · rw [Parser.tryParseFrom, scan_front cli host jsonRequested hvalue, hstrip]
    refine if_pos ?_
    rw [hfront, hpayload, hcheck]
    rfl
  · rw [← path_payload, hpayload, path_payload]
  · have hsome : (collect (front host remotePath jsonRequested ++
        dropLab (cli.events args))).top.value "lab" = some remotePath := by
      rw [Level.value, lab_front, hlab]
      rfl
    rw [Matches.globalValue, subs_front, hsome]
    have hfold : ∀ subs : List (String × Level), (∀ s ∈ subs, s.2.value "lab" = none) →
        subs.foldl (fun v s => (s.2.value "lab").or v) (some remotePath) = some remotePath := by
      intro subs hsubs
      induction subs with
      | nil => rfl
      | cons s subs ih =>
          rw [List.foldl_cons, hsubs s List.mem_cons_self, Option.none_or]
          exact ih fun s hs => hsubs s (List.mem_cons_of_mem _ hs)
    exact hfold _ (lab_subs _)
  · intro p hp
    rcases hplugin with hnone | hnil
    · rw [hnone] at hp
      cases hp
    · rw [Level.value, pluginPath_front host remotePath jsonRequested _ hp,
        hgiven "plugin_path" (by decide), hnil]
      rfl

/-- A command that this process has read is kept on the other host exactly when none of its words
is spelled like the option, no option that may have a value stands in front of the option and a
word, and the plugin roots are not given both here and for the host. -/
theorem keeps_command_iff (host : Host) (pid stamp : Nat) (jsonRequested : Bool)
    (h : cli.tryParseFrom args = some m) :
    Keeps cli host (slicePath pid stamp) jsonRequested args m ↔
      labWord (cli.events args) = false ∧ exposed (cli.events args) = false ∧
        (host.pluginPath = none ∨ m.top.given "plugin_path" = []) := by
  constructor
  · intro hkeeps
    obtain ⟨hclean, hplugin⟩ := clean_of_keeps h (isValue_slicePath pid stamp) hkeeps
    exact ⟨hclean.1, hclean.2, hplugin⟩
  · rintro ⟨hword, hexposed, hplugin⟩
    exact keeps_of_clean h (isValue_slicePath pid stamp) ⟨hword, hexposed⟩ hplugin

end

/-! ### Two of the commands -/

/-- The program, two of its groups and a command of each. -/
inductive Verb where
  | paniolo
  | hid
  | hidSend
  | serial
  | serialSet
deriving DecidableEq

namespace Verb

def valueOpt (id : String) : Opt := ⟨id, .value, false⟩

def helpOpt : Opt := ⟨"help", .ends, false⟩

def versionOpt : Opt := ⟨"version", .ends, false⟩

/-- `--power-button` alone is `--power-button true`. -/
def powerButtonOpt : Opt := ⟨"power_button", .optional, false⟩

/-- The options that only this command has, by their long names. -/
def ownLongs : Verb → List (String × Opt)
  | paniolo => [("plugin-path", pluginPathOpt), ("version", versionOpt)]
  | hid => []
  | hidSend => [("target", valueOpt "target")]
  | serial => []
  | serialSet => [("target", valueOpt "target"), ("device", valueOpt "device"),
      ("baud", valueOpt "baud"), ("sense", valueOpt "sense"), ("power-button", powerButtonOpt),
      ("host", valueOpt "host"), ("port", valueOpt "port")]

def longs (c : Verb) : List (String × Opt) :=
  ("lab", labOpt) :: ("json-errors", jsonErrorsOpt) :: ("help", helpOpt) :: c.ownLongs

def shorts : Verb → List (Char × Opt)
  | paniolo => [('h', helpOpt), ('V', versionOpt)]
  | hid => [('h', helpOpt)]
  | hidSend => [('h', helpOpt), ('t', valueOpt "target")]
  | serial => [('h', helpOpt)]
  | serialSet => [('h', helpOpt), ('t', valueOpt "target"), ('d', valueOpt "device")]

def sub : Verb → String → Option Verb
  | paniolo, name => [("hid", hid), ("serial", serial)].lookup name
  | hid, name => [("send", hidSend)].lookup name
  | serial, name => [("set", serialSet)].lookup name
  | _, _ => none

def grammar : Grammar Verb where
  long := fun c name => c.longs.lookup name
  short := fun c ch => c.shorts.lookup ch
  sub := sub
  takesWord := fun c n => c == hidSend || (c == serialSet && n == 0)
  trailing := fun c _ => c == hidSend

/-- What the two commands require, and the values of `--power-button`. -/
def check (m : Matches) : Bool :=
  match m.subs with
  | [("hid", _), ("send", lv)] => !lv.words.isEmpty
  | [("serial", _), ("set", lv)] =>
      lv.words.length == 1 && (lv.value "target").isSome &&
        (lv.value "power_button").all fun v => v == "true" || v == "false"
  | _ => false

theorem mem_of_lookup {α : Type} [BEq α] [LawfulBEq α] {l : List (α × Opt)} {k : α} {o : Opt}
    (h : l.lookup k = some o) : (k, o) ∈ l := by
  obtain ⟨l₁, l₂, rfl, -⟩ := List.lookup_eq_some_iff.mp h
  exact List.mem_append_right l₁ List.mem_cons_self

/-- What a check of the tables says about the options that a command knows. -/
theorem of_known {P : Verb → Opt → Bool}
    (hlongs : ∀ c : Verb, c.longs.all (fun p => P c p.2) = true)
    (hshorts : ∀ c : Verb, c.shorts.all (fun p => P c p.2) = true) {c : Verb} {o : Opt}
    (h : grammar.Known c o) : P c o = true := by
  rcases h with ⟨name, hname⟩ | ⟨ch, hch⟩
  · exact List.all_eq_true.mp (hlongs c) _ (mem_of_lookup hname)
  · exact List.all_eq_true.mp (hshorts c) _ (mem_of_lookup hch)

end Verb

/-- The parser of these commands. -/
def parser : Parser Verb where
  toGrammar := Verb.grammar
  root := .paniolo
  check := Verb.check
  long_lab := fun _ => rfl
  long_jsonErrors := fun _ => rfl
  long_pluginPath := rfl
  eq_lab := by
    intro c name o h hid
    have hall : ∀ c : Verb, c.longs.all (fun p => p.2.id != "lab" || p.1 == "lab") = true := by
      intro c
      cases c with
      | paniolo => decide
      | hid => decide
      | hidSend => decide
      | serial => decide
      | serialSet => decide
    have hname := List.all_eq_true.mp (hall c) _ (Verb.mem_of_lookup h)
    simpa [hid] using hname
  short_ne_lab := by
    intro c ch o h
    have hall : ∀ c : Verb, c.shorts.all (fun p => p.2.id != "lab") = true := by
      intro c
      cases c with
      | paniolo => decide
      | hid => decide
      | hidSend => decide
      | serial => decide
      | serialSet => decide
    exact bne_iff_ne.mp (List.all_eq_true.mp (hall c) _ (Verb.mem_of_lookup h))
  eq_jsonErrors := by
    intro c o h hid
    have hall := Verb.of_known (P := fun _ o => o.id != "json_errors" || o == jsonErrorsOpt)
      (by intro c; cases c <;> decide) (by intro c; cases c <;> decide) h
    simpa [hid] using hall
  eq_pluginPath := by
    intro o h hid
    have hall := Verb.of_known (P := fun _ o => o.id != "plugin_path" || o == pluginPathOpt)
      (by intro c; cases c <;> decide) (by intro c; cases c <;> decide) h
    simpa [hid] using hall

/-- `paniolo --lab lab.toml hid send -t pi5 type hello`. -/
def typeHello : List String := ["--lab", "lab.toml", "hid", "send", "-t", "pi5", "type", "hello"]

/-- `paniolo hid send -t pi5 type --lab hello`. -/
def typeLab : List String := ["hid", "send", "-t", "pi5", "type", "--lab", "hello"]

/-- A host with plugin roots of its own. -/
def labHost : Host where
  ssh := "lab"
  pluginPath := some "/opt/plugins"

theorem keeps_command_type_hello :
    ∃ m, parser.tryParseFrom typeHello = some m ∧
      (Keeps parser labHost (slicePath 7 11) true typeHello m ↔
        labWord (parser.events typeHello) = false ∧ exposed (parser.events typeHello) = false ∧
          (labHost.pluginPath = none ∨ m.top.given "plugin_path" = [])) := by
  obtain ⟨m, hm⟩ := Option.isSome_iff_exists.mp
    (show (parser.tryParseFrom typeHello).isSome = true by decide)
  exact ⟨m, hm, keeps_command_iff labHost 7 11 true hm⟩

/-- Not every command is kept: two of the words to type are gone. -/
theorem not_keeps_type_lab :
    ¬ ∀ {κ : Type} (cli : Parser κ) (host : Host) (pid stamp : Nat) (jsonRequested : Bool)
      (args : List String) (m : Matches), cli.tryParseFrom args = some m →
      Keeps cli host (slicePath pid stamp) jsonRequested args m := by
  intro hall
  obtain ⟨m, hm⟩ := Option.isSome_iff_exists.mp
    (show (parser.tryParseFrom typeLab).isSome = true by decide)
  obtain ⟨⟨hword, -⟩, -⟩ := clean_of_keeps hm (isValue_slicePath 7 11)
    (hall parser labHost 7 11 false typeLab m hm)
  exact absurd hword (by decide)

/-- `--power-button` takes the name when the option between them is gone. -/
example : exposed (parser.events
    ["serial", "set", "-t", "pi5", "--power-button", "--lab", "lab.toml", "uart0"]) = true := by
  decide

end Reexec

end Cli

end Paniolo
