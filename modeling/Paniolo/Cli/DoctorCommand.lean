import Paniolo.Library.Result
import Paniolo.Library.Shell
import Paniolo.Library.Str

/-!
# The doctor command of a hook

A hook is a shell command. Its doctor command is cut out of its text: the
assignments, the program and its options as they stand, and `doctor --json`
instead of the verb. So where its words end is found by a scan of its own.

`doctor_command_words` says what the shell makes of the result: the first words of
the hook, and the two new ones.
-/

namespace Paniolo

namespace Cli

namespace DoctorCommand

open Text

/-! ### The words of a hook -/

/-- Past the closing `'` of a string. -/
def skipSingle : List Char → Except String (List Char)
  | [] => .error "it has an unterminated single quote"
  | c :: s => if c = '\'' then .ok s else skipSingle s

theorem length_drop_lt (c : Char) (s : List Char) : (s.drop 1).length < (c :: s).length := by
  rw [List.length_drop]
  exact Nat.lt_succ_of_le (Nat.sub_le _ _)

/-- Past the closing backtick of a command substitution. -/
def skipBacktick (s : List Char) : Except String (List Char) :=
  match s with
  | [] => .error "it has an unterminated backtick"
  | c :: s =>
      if c = '`' then .ok s
      else if c = '\\' then skipBacktick (s.drop 1)
      else skipBacktick s
termination_by s.length
decreasing_by
  · exact length_drop_lt c s
  · exact Nat.lt_succ_self _

/-- What is left of `s`, in the form that the next scan needs. -/
abbrev Rest (s : List Char) := { r : List Char // r.length ≤ s.length }

def Rest.weaken {s t : List Char} (h : s.length ≤ t.length) (r : Rest s) : Rest t :=
  ⟨r.1, r.2.trans h⟩

theorem length_skipSingle {s r : List Char} (h : skipSingle s = .ok r) : r.length < s.length := by
  induction s with
  | nil => cases h
  | cons c s ih =>
      rw [skipSingle] at h
      split at h
      · cases h
        exact Nat.lt_succ_self _
      · exact (ih h).trans (Nat.lt_succ_self _)

theorem length_skipBacktick (s : List Char) :
    ∀ r, skipBacktick s = .ok r → r.length < s.length := by
  induction s using skipBacktick.induct with
  | case1 =>
      intro r h
      rw [skipBacktick] at h
      cases h
  | case2 s =>
      intro r h
      rw [skipBacktick, if_pos rfl] at h
      cases h
      exact Nat.lt_succ_self _
  | case3 s hne ih =>
      intro r h
      rw [skipBacktick, if_neg hne, if_pos rfl] at h
      exact (ih r h).trans (length_drop_lt _ _)
  | case4 c s hne hne' ih =>
      intro r h
      rw [skipBacktick, if_neg hne, if_neg hne'] at h
      exact (ih r h).trans (Nat.lt_succ_self _)

mutual

/-- Past the closing `"` of a string. -/
def skipDouble (s : List Char) : Except String (Rest s) :=
  match s with
  | [] => .error "it has an unterminated double quote"
  | c :: s =>
      if c = '"' then .ok ⟨s, Nat.le_succ _⟩
      else if c = '\\' then
        (skipDouble (s.drop 1)).map (.weaken (length_drop_lt c s).le)
      else if c = '`' then
        match h : skipBacktick s with
        | .ok r => (skipDouble r).map (.weaken ((length_skipBacktick s r h).le.trans (Nat.le_succ _)))
        | .error e => .error e
      else if c = '$' ∧ s.head? = some '(' then
        match skipSubst (s.drop 1) 0 with
        | .ok r =>
            (skipDouble r.1).map (.weaken (r.2.trans (length_drop_lt c s).le))
        | .error e => .error e
      else (skipDouble s).map (.weaken (Nat.le_succ _))
termination_by s.length
decreasing_by
  · exact length_drop_lt c s
  · exact (length_skipBacktick s r h).trans (Nat.lt_succ_self _)
  · exact length_drop_lt c s
  · exact r.2.trans_lt (length_drop_lt c s)
  · exact Nat.lt_succ_self _

/-- Past the `)` that closes a `$(`, inside `depth` further parentheses. -/
def skipSubst (s : List Char) (depth : Nat) : Except String (Rest s) :=
  match s with
  | [] => .error "it has an unterminated $("
  | c :: s =>
      if c = '\'' then
        match h : skipSingle s with
        | .ok r =>
            (skipSubst r depth).map (.weaken ((length_skipSingle h).le.trans (Nat.le_succ _)))
        | .error e => .error e
      else if c = '"' then
        match skipDouble s with
        | .ok r => (skipSubst r.1 depth).map (.weaken (r.2.trans (Nat.le_succ _)))
        | .error e => .error e
      else if c = '\\' then
        (skipSubst (s.drop 1) depth).map
          (.weaken (length_drop_lt c s).le)
      else if c = '(' then (skipSubst s (depth + 1)).map (.weaken (Nat.le_succ _))
      else if c = ')' then
        match depth with
        | 0 => .ok ⟨s, Nat.le_succ _⟩
        | depth + 1 => (skipSubst s depth).map (.weaken (Nat.le_succ _))
      else (skipSubst s depth).map (.weaken (Nat.le_succ _))
termination_by s.length
decreasing_by
  · exact (length_skipSingle h).trans (Nat.lt_succ_self _)
  · exact Nat.lt_succ_self _
  · exact r.2.trans_lt (Nat.lt_succ_self _)
  · exact length_drop_lt c s
  · exact Nat.lt_succ_self _
  · exact Nat.lt_succ_self _
  · exact Nat.lt_succ_self _

end

/-- The characters that end a command. -/
def isOperator (c : Char) : Bool := ";|&<>()\n\r".toList.contains c

def isBlank (c : Char) : Bool := c == ' ' || c == '\t'

/-- Past the word that `s` is in. -/
def wordEnd (s : List Char) : Except String (Rest s) :=
  match s with
  | [] => .ok ⟨[], le_rfl⟩
  | c :: s =>
      if isBlank c then .ok ⟨c :: s, le_rfl⟩
      else if c = '\'' then
        match h : skipSingle s with
        | .ok r => (wordEnd r).map (.weaken ((length_skipSingle h).le.trans (Nat.le_succ _)))
        | .error e => .error e
      else if c = '"' then
        match skipDouble s with
        | .ok r => (wordEnd r.1).map (.weaken (r.2.trans (Nat.le_succ _)))
        | .error e => .error e
      else if c = '`' then
        match h : skipBacktick s with
        | .ok r => (wordEnd r).map (.weaken ((length_skipBacktick s r h).le.trans (Nat.le_succ _)))
        | .error e => .error e
      else if c = '\\' then (wordEnd (s.drop 1)).map (.weaken (length_drop_lt c s).le)
      else if c = '$' ∧ s.head? = some '(' then
        match skipSubst (s.drop 1) 0 with
        | .ok r => (wordEnd r.1).map (.weaken (r.2.trans (length_drop_lt c s).le))
        | .error e => .error e
      else if isOperator c then
        .error (String.ofList ("it contains the shell operator `".toList ++ [c] ++ "`".toList))
      else (wordEnd s).map (.weaken (Nat.le_succ _))
termination_by s.length
decreasing_by
  · exact (length_skipSingle h).trans (Nat.lt_succ_self _)
  · exact r.2.trans_lt (Nat.lt_succ_self _)
  · exact (length_skipBacktick s r h).trans (Nat.lt_succ_self _)
  · exact length_drop_lt c s
  · exact r.2.trans_lt (length_drop_lt c s)
  · exact Nat.lt_succ_self _

/-- What is left, whatever is known of its length. -/
def past {s : List Char} (x : Except String (Rest s)) : Except String (List Char) := x.map (·.1)

theorem past_weaken {s t : List Char} (h : s.length ≤ t.length) (x : Except String (Rest s)) :
    past (x.map (.weaken h)) = past x := by
  cases x <;> rfl

theorem skipDouble_cons (c : Char) (s : List Char) : past (skipDouble (c :: s)) =
    if c = '"' then .ok s
    else if c = '\\' then past (skipDouble (s.drop 1))
    else if c = '`' then (skipBacktick s).bind fun r => past (skipDouble r)
    else if c = '$' ∧ s.head? = some '(' then
      (past (skipSubst (s.drop 1) 0)).bind fun r => past (skipDouble r)
    else past (skipDouble s) := by
  rw [skipDouble]
  split
  · rfl
  split
  · rw [past_weaken]
  split
  · split
    next r hr => rw [past_weaken, hr]; rfl
    next e he => rw [he]; rfl
  split
  · split
    next r hr => rw [past_weaken, hr]; rfl
    next e he => rw [he]; rfl
  · rw [past_weaken]

theorem wordEnd_cons (c : Char) (s : List Char) : past (wordEnd (c :: s)) =
    if isBlank c then .ok (c :: s)
    else if c = '\'' then (skipSingle s).bind fun r => past (wordEnd r)
    else if c = '"' then (past (skipDouble s)).bind fun r => past (wordEnd r)
    else if c = '`' then (skipBacktick s).bind fun r => past (wordEnd r)
    else if c = '\\' then past (wordEnd (s.drop 1))
    else if c = '$' ∧ s.head? = some '(' then
      (past (skipSubst (s.drop 1) 0)).bind fun r => past (wordEnd r)
    else if isOperator c then
      .error (String.ofList ("it contains the shell operator `".toList ++ [c] ++ "`".toList))
    else past (wordEnd s) := by
  rw [wordEnd]
  split
  · rfl
  split
  · split
    next r hr => rw [past_weaken, hr]; rfl
    next e he => rw [he]; rfl
  split
  · split
    next r hr => rw [past_weaken, hr]; rfl
    next e he => rw [he]; rfl
  split
  · split
    next r hr => rw [past_weaken, hr]; rfl
    next e he => rw [he]; rfl
  split
  · rw [past_weaken]
  split
  · split
    next r hr => rw [past_weaken, hr]; rfl
    next e he => rw [he]; rfl
  split
  · rfl
  · rw [past_weaken]

theorem length_of_past {s r : List Char} {x : Except String (Rest s)} (h : past x = .ok r) :
    r.length ≤ s.length := by
  cases x with
  | error e => cases h
  | ok r' =>
      cases h
      exact r'.2

/-- A word that begins is not empty. -/
theorem length_wordEnd {c : Char} (hc : isBlank c = false) {s r : List Char}
    (h : past (wordEnd (c :: s)) = .ok r) : r.length < (c :: s).length := by
  have hbind : ∀ {x : Except String (List Char)}, (∀ m, x = .ok m → m.length ≤ s.length) →
      (x.bind fun m => past (wordEnd m)) = .ok r → r.length < (c :: s).length := by
    intro x hx hr
    cases x with
    | error e => cases hr
    | ok m => exact Nat.lt_succ_of_le ((length_of_past hr).trans (hx m rfl))
  rw [wordEnd_cons, hc, if_neg Bool.false_ne_true] at h
  split at h
  · exact hbind (fun m hm => (length_skipSingle hm).le) h
  split at h
  · exact hbind (fun m hm => length_of_past hm) h
  split at h
  · exact hbind (fun m hm => (length_skipBacktick s m hm).le) h
  split at h
  · exact (length_of_past h).trans_lt (length_drop_lt c s)
  split at h
  · refine hbind (fun m hm => (length_of_past hm).trans ?_) h
    rw [List.length_drop]
    exact Nat.sub_le _ _
  split at h
  · cases h
  · exact Nat.lt_succ_of_le (length_of_past h)

/-- The next word of `s` and what is behind it; none at the end, or at a comment. -/
def nextWord (s : List Char) : Except String (Option (List Char × List Char)) :=
  match s.dropWhile isBlank with
  | [] => .ok none
  | c :: s =>
      if c = '#' then .ok none
      else
        match wordEnd (c :: s) with
        | .ok r => .ok (some ((c :: s).take ((c :: s).length - r.1.length), r.1))
        | .error e => .error e

/-- `daemons::is_env_assignment`. -/
def isEnvAssignment (tok : List Char) : Bool :=
  match splitOnce (· == '=') tok with
  | some (var, _) =>
      var ≠ [] && var.head?.any (fun c => c.isAlpha || c == '_') &&
        var.all fun c => c.isAlphanum || c == '_'
  | none => false

def optionTakesValue (w : List Char) : Bool :=
  match stripPrefix "--".toList w with
  | some long => long ≠ "allow-insecure-http".toList && !long.contains '='
  | none => Str.len w == 2

/-- The word is an option, and not the mark that ends them. -/
def isOption (w : List Char) : Bool := w ≠ ['-'] && w ≠ ['-', '-'] && w.head? == some '-'

theorem length_nextWord {s w r : List Char} (h : nextWord s = .ok (some (w, r))) :
    r.length < s.length := by
  rw [nextWord] at h
  split at h
  next => cases h
  next c s' hs =>
    split at h
    next => cases h
    next =>
      split at h
      next r' hr =>
        cases h
        have hblank : isBlank c = false := by
          have hhead := List.head?_dropWhile_not isBlank s
          rw [hs] at hhead
          exact hhead
        have hlt := length_wordEnd hblank (r := r'.1) (by rw [past, hr]; rfl)
        have hle := (List.dropWhile_sublist isBlank (l := s)).length_le
        rw [hs] at hle
        exact hlt.trans_le hle
      next => cases h

/-- Past the assignments and the program. -/
def programEnd (s : List Char) : Except String (List Char) :=
  match _h : nextWord s with
  | .error e => .error e
  | .ok none => .error "it names no program"
  | .ok (some (w, r)) => if isEnvAssignment w then programEnd r else .ok r
termination_by s.length
decreasing_by exact length_nextWord _h

/-- Past the options and their values. -/
def optionsEnd (s : List Char) : Except String (List Char) :=
  match _h : nextWord s with
  | .error e => .error e
  | .ok none => .ok s
  | .ok (some (w, r)) =>
      if isOption w then
        if optionTakesValue w then
          match _h' : nextWord r with
          | .error e => .error e
          | .ok none => .ok r
          | .ok (some (_, r')) => optionsEnd r'
        else optionsEnd r
      else .ok s
termination_by s.length
decreasing_by
  · exact (length_nextWord _h').trans (length_nextWord _h)
  · exact length_nextWord _h

/-- Past every word, and whether one is a program. -/
def prefixEnd (s : List Char) (program : Bool) : Except String (List Char × Bool) :=
  match _h : nextWord s with
  | .error e => .error e
  | .ok none => .ok (s, program)
  | .ok (some (w, r)) => prefixEnd r (program || !isEnvAssignment w)
termination_by s.length
decreasing_by exact length_nextWord _h

/-- The text before `rest`, and the two words. -/
def askDoctor (text rest : List Char) : List Char :=
  (text.take (text.length - rest.length)).rdropWhile isWhitespace ++ " doctor --json".toList

def doctorCommandForHook (hook : List Char) : Except String (List Char) := do
  let r ← programEnd hook
  let r ← optionsEnd r
  .ok (askDoctor hook r)

def doctorCommandForPrefix (cmd : List Char) : Except String (List Char) := do
  let (r, program) ← prefixEnd cmd false
  if program then .ok (askDoctor cmd r) else .error "it names no program"

/-! ### What the shell makes of them -/

open Shell (Scan Token Word Spells)

/-- White space in the text is blanks and tabs, and none of it is escaped. -/
structure OneLine (s : List Char) : Prop where
  blank : ∀ c ∈ s, isWhitespace c = true → isBlank c = true
  bare : ∀ a c b, s = a ++ '\\' :: c :: b → isWhitespace c = false

theorem OneLine.right {a b : List Char} (h : OneLine (a ++ b)) : OneLine b where
  blank c hc := h.blank c (List.mem_append_right a hc)
  bare x c y heq := h.bare (a ++ x) c y (by rw [heq, List.append_assoc])

/-- The shell can read the text from there on. -/
def Readable (st : Scan) (s : List Char) : Prop := ∃ ts, (Shell.scan st s).bind Shell.finish = some ts

theorem Readable.cons {st st' : Scan} {c : Char} {s : List Char} (h : Readable st (c :: s))
    (hst : Shell.step st c = some st') : Readable st' s := by
  obtain ⟨ts, hts⟩ := h
  rw [Shell.scan_cons, hst, Option.bind_some] at hts
  exact ⟨ts, hts⟩

theorem Readable.exists_step {st : Scan} {c : Char} {s : List Char} (h : Readable st (c :: s)) :
    ∃ st', Shell.step st c = some st' := by
  obtain ⟨ts, hts⟩ := h
  rw [Shell.scan_cons] at hts
  cases hst : Shell.step st c with
  | none =>
      rw [hst] at hts
      cases hts
  | some st' => exact ⟨st', rfl⟩

theorem Readable.append {st st' : Scan} {a b : List Char} (h : Readable st (a ++ b))
    (hst : Shell.scan st a = some st') : Readable st' b := by
  obtain ⟨ts, hts⟩ := h
  rw [Shell.scan_append, hst, Option.bind_some] at hts
  exact ⟨ts, hts⟩

/-- The shell goes on from the mode with a word that it is in, over the text, and is still in that
word. -/
def Continues (mode : Shell.Mode) (q : List Char) : Prop :=
  ∃ ps, ∀ w us, Shell.scan ⟨mode, some w, us⟩ q = some ⟨.plain, some (w ++ ps), us⟩

theorem Continues.cons {mode mode' : Shell.Mode} {c : Char} {q : List Char}
    (ps : Word) (hstep : ∀ w us, Shell.step ⟨mode, some w, us⟩ c = some ⟨mode', some (w ++ ps), us⟩)
    (h : Continues mode' q) : Continues mode (c :: q) := by
  obtain ⟨rest, hrest⟩ := h
  refine ⟨ps ++ rest, fun w us => ?_⟩
  rw [Shell.scan_cons, hstep, Option.bind_some, hrest, List.append_assoc]

theorem Continues.append {mode : Shell.Mode} {a b : List Char} (ha : Continues mode a)
    (hb : Continues .plain b) : Continues mode (a ++ b) := by
  obtain ⟨ps, hps⟩ := ha
  obtain ⟨rest, hrest⟩ := hb
  refine ⟨ps ++ rest, fun w us => ?_⟩
  rw [Shell.scan_append, hps, Option.bind_some, hrest, List.append_assoc]

theorem continues_nil : Continues .plain [] := ⟨[], fun w us => by rw [List.append_nil]; rfl⟩

/-- What `skipSingle` skips is the rest of a quoted string. -/
theorem skipSingle_continues {s r : List Char} (h : skipSingle s = .ok r) :
    ∃ q, s = q ++ r ∧ Continues .single q ∧ q.getLast? = some '\'' := by
  induction s with
  | nil => cases h
  | cons c s ih =>
      rw [skipSingle] at h
      split at h
      next hc =>
        cases h
        subst hc
        refine ⟨['\''], rfl, Continues.cons [] (fun w us => ?_) continues_nil, rfl⟩
        rw [List.append_nil]
        rfl
      next hc =>
        obtain ⟨q, rfl, hq, hlast⟩ := ih h
        refine ⟨c :: q, rfl, Continues.cons [.quoted c] (fun w us => ?_) hq, ?_⟩
        · simp only [Shell.step]
          rw [if_neg hc]
          rfl
        · rw [List.getLast?_cons, hlast]
          rfl

/-- What `skipDouble` skips is the rest of a quoted string, as far as the shell reads it as one. -/
theorem skipDouble_continues {w : Word} {us : List Token} (n : Nat) :
    ∀ {s r : List Char}, s.length ≤ n → Readable ⟨.double, some w, us⟩ s →
      past (skipDouble s) = .ok r →
      ∃ q, s = q ++ r ∧ Continues .double q ∧ q.getLast? = some '"' := by
  induction n generalizing w us with
  | zero =>
      intro s r hn _ h
      rw [List.length_eq_zero_iff.mp (Nat.le_zero.mp hn), skipDouble] at h
      cases h
  | succ n ih =>
      intro s r hn hread h
      cases s with
      | nil =>
          rw [skipDouble] at h
          cases h
      | cons c s =>
          have hlength : s.length ≤ n := Nat.le_of_succ_le_succ hn
          obtain ⟨st, hst⟩ := hread.exists_step
          have hrest := hread.cons hst
          rw [skipDouble_cons] at h
          simp only [Shell.step] at hst
          split at hst
          next hc =>
            cases hst
            rw [if_pos hc] at h
            cases h
            subst hc
            refine ⟨['"'], rfl, Continues.cons [] (fun v vs => ?_) continues_nil, rfl⟩
            rw [List.append_nil]
            rfl
          next hquote =>
            rw [if_neg hquote] at h
            split at hst
            next hc =>
              -- the shell goes on only with `$@`
              subst hc
              cases hst
              cases s with
              | nil =>
                  obtain ⟨ts, hts⟩ := hrest
                  cases hts
              | cons c s =>
                  obtain ⟨st, hst⟩ := hrest.exists_step
                  have hrest := hrest.cons hst
                  simp only [Shell.step, Scan.inMode] at hst
                  split at hst
                  next hat =>
                    subst hat
                    cases hst
                    rw [if_neg (by decide), if_neg (by decide), if_neg, skipDouble_cons,
                      if_neg (by decide), if_neg (by decide), if_neg (by decide), if_neg] at h
                    · obtain ⟨q, rfl, hq, hlast⟩ :=
                        ih ((Nat.le_succ _).trans hlength) hrest h
                      have hdollar : Continues .dollar ('@' :: q) :=
                        Continues.cons [.params] (fun v vs => rfl) hq
                      refine ⟨'$' :: '@' :: q, rfl,
                        Continues.cons [] (fun v vs => ?_) hdollar, ?_⟩
                      · rw [List.append_nil]
                        rfl
                      · rw [List.getLast?_cons_cons, List.getLast?_cons, hlast]
                        rfl
                    · rintro ⟨hat, -⟩
                      exact absurd hat (by decide)
                    · rintro ⟨-, hparen⟩
                      exact absurd (Option.some.inj hparen) (by decide)
                  next => cases hst
            next hdollar =>
              split at hst
              next => cases hst
              next hother =>
                cases hst
                obtain ⟨hback, hslash⟩ := not_or.mp hother
                rw [if_neg hslash, if_neg hback, if_neg (fun h => hdollar h.1)] at h
                obtain ⟨q, rfl, hq, hlast⟩ := ih hlength hrest h
                refine ⟨c :: q, rfl, Continues.cons [.quoted c] (fun v vs => ?_) hq, ?_⟩
                · simp only [Shell.step]
                  rw [if_neg hquote, if_neg hdollar, if_neg hother]
                  rfl
                · rw [List.getLast?_cons, hlast]
                  rfl

/-- What `wordEnd` passes is the rest of a word, and a blank or nothing follows. -/
structure Passed (s r q : List Char) : Prop where
  split : s = q ++ r
  continues : Continues .plain q
  ends : r = [] ∨ ∃ c r', r = c :: r' ∧ isBlank c = true
  last : ∀ c, q.getLast? = some c → isWhitespace c = false

theorem Passed.quoted {s r q m quote : List Char} {c d : Char} {mode : Shell.Mode}
    (h : Passed m r q) (hs : s = quote ++ m) (hquote : Continues mode quote)
    (hstep : ∀ w us, Shell.step ⟨.plain, some w, us⟩ c = some ⟨mode, some w, us⟩)
    (hlast : quote.getLast? = some d) (hd : isWhitespace d = false) :
    Passed (c :: s) r (c :: (quote ++ q)) where
  split := by rw [hs, h.split, List.cons_append, List.append_assoc]
  continues := by
    refine Continues.cons [] (fun w us => ?_) (hquote.append h.continues)
    rw [List.append_nil]
    exact hstep w us
  ends := h.ends
  last := by
    intro x hx
    rw [List.getLast?_cons, List.getLast?_append, hlast] at hx
    cases hq : q.getLast? with
    | none =>
        rw [hq] at hx
        cases hx
        exact hd
    | some y =>
        rw [hq] at hx
        cases hx
        exact h.last _ hq

theorem passed_nil {r : List Char} (h : r = [] ∨ ∃ c r', r = c :: r' ∧ isBlank c = true) :
    Passed r r [] where
  split := rfl
  continues := continues_nil
  ends := h
  last _ hc := by cases hc

/-- A character that stands for itself goes before what is passed. -/
theorem Passed.bare {s r q : List Char} {c : Char} (h : Passed s r q)
    (hstep : ∀ w us, Shell.step ⟨.plain, some w, us⟩ c = some ⟨.plain, some (w ++ [.bare c]), us⟩)
    (hc : isWhitespace c = false) : Passed (c :: s) r (c :: q) where
  split := congrArg (c :: ·) h.split
  continues := Continues.cons _ hstep h.continues
  ends := h.ends
  last := by
    intro x hx
    rw [List.getLast?_cons] at hx
    cases hq : q.getLast? with
    | none =>
        rw [hq] at hx
        cases hx
        exact hc
    | some y =>
        rw [hq] at hx
        cases hx
        exact h.last _ hq

theorem eq_ok_of_bind {α β : Type} {x : Except String α} {f : α → Except String β} {b : β}
    (h : x.bind f = .ok b) : ∃ a, x = .ok a ∧ f a = .ok b := by
  cases x with
  | error e => cases h
  | ok a => exact ⟨a, rfl, h⟩

/-- What is neither a blank nor a quotation nor an operator is a part of the word. -/
theorem step_bare {c : Char} {w : Word} {us : List Token} {st : Scan} (hblank : ¬isBlank c = true)
    (hsingle : c ≠ '\'') (hdouble : c ≠ '"') (hslash : c ≠ '\\') (hoperator : ¬isOperator c = true)
    (hst : Shell.step ⟨.plain, some w, us⟩ c = some st) (v : Word) (vs : List Token) :
    Shell.step ⟨.plain, some v, vs⟩ c = some ⟨.plain, some (v ++ [.bare c]), vs⟩ := by
  have hspace : ¬(c = ' ' ∨ c = '\t') := by
    rintro (rfl | rfl)
    · exact hblank (by decide)
    · exact hblank (by decide)
  have hand : c ≠ '&' := by
    rintro rfl
    exact hoperator (by decide)
  simp only [Shell.step] at hst ⊢
  rw [if_neg hspace, if_neg hsingle, if_neg hdouble, if_neg hslash, if_neg hand] at hst ⊢
  split at hst
  next => cases hst
  next hend =>
    rw [if_neg]
    · rfl
    · rintro (hop | ⟨-, hnone⟩)
      · exact hend (.inl hop)
      · cases hnone

theorem wordEnd_passed (n : Nat) :
    ∀ {s r : List Char} {w : Word} {us : List Token}, s.length ≤ n → OneLine s →
      Readable ⟨.plain, some w, us⟩ s → past (wordEnd s) = .ok r → ∃ q, Passed s r q := by
  have hnil : ∀ {r : List Char}, past (wordEnd []) = .ok r → ∃ q, Passed [] r q := by
    intro r h
    rw [wordEnd] at h
    cases h
    exact ⟨[], passed_nil (.inl rfl)⟩
  induction n with
  | zero =>
      intro s r w us hn _ _ h
      rw [List.length_eq_zero_iff.mp (Nat.le_zero.mp hn)] at h ⊢
      exact hnil h
  | succ n ih =>
      intro s r w us hn hline hread h
      cases s with
      | nil => exact hnil h
      | cons c s =>
          have hlength : s.length ≤ n := Nat.le_of_succ_le_succ hn
          have htail : OneLine s := OneLine.right (a := [c]) hline
          obtain ⟨st, hst⟩ := hread.exists_step
          have hrest := hread.cons hst
          -- a quotation in the word, and then the rest of the word
          have hquoted : ∀ {mode : Shell.Mode} {m quote : List Char} {d : Char},
              (∀ w us, Shell.step ⟨.plain, some w, us⟩ c = some ⟨mode, some w, us⟩) →
              s = quote ++ m → Continues mode quote → quote.getLast? = some d →
              isWhitespace d = false → past (wordEnd m) = .ok r → ∃ q, Passed (c :: s) r q := by
            intro mode m quote d hstep hs hquote hlast hd hm
            cases (hstep w us).symm.trans hst
            obtain ⟨ps, hps⟩ := hquote
            have hlen := congrArg List.length hs
            rw [List.length_append] at hlen
            rw [hs] at hrest htail
            obtain ⟨q, hq⟩ := ih (by omega) htail.right (hrest.append (hps w us)) hm
            exact ⟨_, hq.quoted hs ⟨ps, hps⟩ hstep hlast hd⟩
          rw [wordEnd_cons] at h
          split at h
          next hblank =>
            cases h
            exact ⟨[], passed_nil (.inr ⟨c, s, rfl, hblank⟩)⟩
          next hblank =>
          split at h
          next hc =>
            subst hc
            obtain ⟨m, hm, h⟩ := eq_ok_of_bind h
            obtain ⟨quote, hs, hquote, hlast⟩ := skipSingle_continues hm
            exact hquoted (fun _ _ => rfl) hs hquote hlast (by decide) h
          next hsingle =>
          split at h
          next hc =>
            subst hc
            cases hst
            obtain ⟨m, hm, h⟩ := eq_ok_of_bind h
            obtain ⟨quote, hs, hquote, hlast⟩ := skipDouble_continues _ le_rfl hrest hm
            exact hquoted (fun _ _ => rfl) hs hquote hlast (by decide) h
          next hdouble =>
          split at h
          next hc =>
            subst hc
            cases hst
          next hback =>
          split at h
          next hc =>
            subst hc
            cases hst
            cases s with
            | nil =>
                obtain ⟨ts, hts⟩ := hrest
                cases hts
            | cons c s =>
                have hc : isWhitespace c = false := hline.bare [] c s rfl
                have hne : c ≠ '\n' := by
                  rintro rfl
                  exact absurd hc (by decide)
                have hstep : ∀ w us, Shell.step ⟨.escape, some w, us⟩ c =
                    some ⟨.plain, some (w ++ [.quoted c]), us⟩ := by
                  intro w us
                  simp only [Shell.step]
                  rw [if_neg hne]
                  rfl
                have hlen : s.length ≤ n := (Nat.le_succ _).trans hlength
                obtain ⟨q, hq⟩ := ih hlen (OneLine.right (a := [c]) htail)
                  (hrest.cons (hstep w us)) h
                refine ⟨'\\' :: c :: q, congrArg ('\\' :: c :: ·) hq.split, ?_, hq.ends, ?_⟩
                · refine Continues.cons [] (fun w us => ?_)
                    (Continues.cons _ hstep hq.continues)
                  rw [List.append_nil]
                  rfl
                · intro x hx
                  rw [List.getLast?_cons_cons, List.getLast?_cons] at hx
                  cases hlast : q.getLast? with
                  | none =>
                      rw [hlast] at hx
                      cases hx
                      exact hc
                  | some y =>
                      rw [hlast] at hx
                      cases hx
                      exact hq.last _ hlast
          next hslash =>
          split at h
          next hc =>
            obtain ⟨rfl, -⟩ := hc
            cases hst
          next hsubst =>
          split at h
          next => cases h
          next hoperator =>
            have hplain := step_bare hblank hsingle hdouble hslash hoperator hst
            have hc : isWhitespace c = false := by
              cases hws : isWhitespace c with
              | false => rfl
              | true => exact absurd (hline.blank c List.mem_cons_self hws) hblank
            obtain ⟨q, hq⟩ := ih hlength htail (hread.cons (hplain w us)) h
            exact ⟨_, hq.bare hplain hc⟩

/-- With its first character a word begins. -/
theorem scan_begin {c : Char} {s : List Char} (hblank : ¬isBlank c = true) (hhash : c ≠ '#')
    (hand : c ≠ '&') (hslash : c = '\\' → ∃ d s', s = d :: s' ∧ d ≠ '\n') (us : List Token) :
    Shell.scan ⟨.plain, none, us⟩ (c :: s) = Shell.scan ⟨.plain, some [], us⟩ (c :: s) := by
  by_cases hc : c = '\\'
  · obtain ⟨d, s', rfl, hd⟩ := hslash hc
    subst hc
    have hstep : Shell.step ⟨.escape, none, us⟩ d = Shell.step ⟨.escape, some [], us⟩ d := by
      simp only [Shell.step]
      rw [if_neg hd, if_neg hd]
      rfl
    change (Shell.scan ⟨.escape, none, us⟩ (d :: s')) = Shell.scan ⟨.escape, some [], us⟩ (d :: s')
    rw [Shell.scan_cons, Shell.scan_cons, hstep]
  · have hstep : Shell.step ⟨.plain, none, us⟩ c = Shell.step ⟨.plain, some [], us⟩ c := by
      have hspace : ¬(c = ' ' ∨ c = '\t') := by
        rintro (rfl | rfl)
        · exact hblank (by decide)
        · exact hblank (by decide)
      simp only [Shell.step]
      rw [if_neg hspace, if_neg hspace]
      by_cases hsingle : c = '\''
      · rw [if_pos hsingle, if_pos hsingle]
        rfl
      by_cases hdouble : c = '"'
      · rw [if_neg hsingle, if_neg hsingle, if_pos hdouble, if_pos hdouble]
        rfl
      rw [if_neg hsingle, if_neg hsingle, if_neg hdouble, if_neg hdouble, if_neg hc, if_neg hc,
        if_neg hand, if_neg hand]
      by_cases hop : Shell.isOperator c = true
      · rw [if_pos (Or.inl hop), if_pos (Or.inl hop)]
      · rw [if_neg (fun h => h.elim hop fun h => hhash h.1),
          if_neg (fun h => h.elim hop fun h => hhash h.1)]
        rfl
    rw [Shell.scan_cons, Shell.scan_cons, hstep]

/-- Where the shell is at the end of a text of these words. -/
def opened (ws : List Word) : Scan := ⟨.plain, ws.getLast?, ws.dropLast.map .word⟩

theorem opened_concat (ws : List Word) (w : Word) :
    opened (ws ++ [w]) = ⟨.plain, some w, ws.map .word⟩ := by
  rw [opened, List.getLast?_concat, List.dropLast_concat]

/-- Blanks end the word, if there are any. -/
theorem scan_blanks {b : List Char} (hb : ∀ c ∈ b, isBlank c = true) {ws : List Word}
    (hne : ws ≠ [] → b ≠ []) : Shell.scan (opened ws) b = some ⟨.plain, none, ws.map .word⟩ := by
  have hstep : ∀ (c : Char) (cur : Option Word) (us : List Token), isBlank c = true →
      Shell.step ⟨.plain, cur, us⟩ c = some (Scan.close ⟨.plain, cur, us⟩) := by
    intro c cur us hc
    have hspace : c = ' ' ∨ c = '\t' := by
      rw [isBlank, Bool.or_eq_true] at hc
      exact hc.imp eq_of_beq eq_of_beq
    simp only [Shell.step]
    rw [if_pos hspace]
  have hmore : ∀ (a : List Char) (us : List Token), (∀ c ∈ a, isBlank c = true) →
      Shell.scan ⟨.plain, none, us⟩ a = some ⟨.plain, none, us⟩ := by
    intro a us ha
    induction a with
    | nil => rfl
    | cons c a ih =>
        rw [Shell.scan_cons, hstep c none us (ha c List.mem_cons_self)]
        exact ih fun x hx => ha x (List.mem_cons_of_mem c hx)
  cases ws using List.reverseRecOn with
  | nil => exact hmore b [] hb
  | append_singleton ws w =>
      cases b with
      | nil => exact absurd rfl (hne (List.append_ne_nil_of_right_ne_nil ws (List.cons_ne_nil _ _)))
      | cons c b =>
          rw [opened_concat, Shell.scan_cons, hstep c _ _ (hb c List.mem_cons_self),
            List.map_append]
          exact hmore b _ fun x hx => hb x (List.mem_cons_of_mem c hx)

/-- A text that is these words, with blanks between them, where each is spelled so that nothing is
lost of it at its end. -/
inductive Laid : List Char → List (List Char) → List Word → Prop
  | nil : Laid [] [] []
  | word {k b t : List Char} {texts : List (List Char)} {ws : List Word} {w : Word} :
      Laid k texts ws → (∀ c ∈ b, isBlank c = true) → (ws ≠ [] → b ≠ []) → Spells t w →
        (∃ c, t.getLast? = some c ∧ isWhitespace c = false) →
        Laid (k ++ (b ++ t)) (texts ++ [t]) (ws ++ [w])

theorem Laid.scan {k : List Char} {texts : List (List Char)} {ws : List Word}
    (h : Laid k texts ws) : Shell.scan .start k = some (opened ws) := by
  induction h with
  | nil => rfl
  | word _ hb hne ht _ ih =>
      rw [Shell.scan_append, ih, Option.bind_some, Shell.scan_append, scan_blanks hb hne,
        Option.bind_some, ht, opened_concat]

theorem Laid.tokens {k : List Char} {texts : List (List Char)} {ws : List Word}
    (h : Laid k texts ws) : Shell.tokens k = some (ws.map .word) := by
  rw [Shell.tokens, h.scan, Option.bind_some]
  cases ws using List.reverseRecOn with
  | nil => rfl
  | append_singleton ws w =>
      rw [opened_concat, List.map_append]
      rfl

/-- Nothing of the text is white space at its end. -/
theorem Laid.trimmed {k : List Char} {texts : List (List Char)} {ws : List Word}
    (h : Laid k texts ws) : k.rdropWhile isWhitespace = k := by
  cases h with
  | nil => rfl
  | @word k b t texts ws w _ _ _ _ hlast =>
      obtain ⟨c, hc, hws⟩ := hlast
      obtain ⟨t, rfl⟩ := List.getLast?_eq_some_iff.mp hc
      rw [← List.append_assoc, ← List.append_assoc, List.rdropWhile_concat_neg]
      rw [hws]
      exact Bool.false_ne_true

/-- The scan of the hook is at `s`, behind these words. -/
structure At (hook s : List Char) (texts : List (List Char)) (ws : List Word) : Prop where
  laid : ∃ k, hook = k ++ s ∧ Laid k texts ws
  ends : ws = [] ∨ s = [] ∨ ∃ c s', s = c :: s' ∧ isBlank c = true

namespace At

variable {hook s r t : List Char} {texts : List (List Char)} {ws : List Word}

theorem start (hook : List Char) : At hook hook [] [] where
  laid := ⟨[], rfl, .nil⟩
  ends := .inl rfl

/-- A word that the shell can read, from its first character on. -/
theorem spells_of_passed {c : Char} {m : List Char} {us : List Token}
    (hblank : ¬isBlank c = true) (hhash : c ≠ '#') (hline : OneLine (c :: s))
    (hread : Readable ⟨.plain, none, us⟩ (c :: s)) (hpast : past (wordEnd (c :: s)) = .ok m) :
    ∃ t w, c :: s = t ++ m ∧ Spells t w ∧
      (m = [] ∨ ∃ d m', m = d :: m' ∧ isBlank d = true) ∧
      ∃ d, t.getLast? = some d ∧ isWhitespace d = false := by
  have hand : c ≠ '&' := by
    rintro rfl
    rw [wordEnd_cons, if_neg (by decide), if_neg (by decide), if_neg (by decide),
      if_neg (by decide), if_neg (by decide), if_neg, if_pos (by decide)] at hpast
    · cases hpast
    · rintro ⟨heq, -⟩
      exact absurd heq (by decide)
  have hescaped : c = '\\' → ∃ d s', s = d :: s' ∧ d ≠ '\n' := by
    rintro rfl
    cases s with
    | nil =>
        obtain ⟨ts, hts⟩ := hread
        cases hts
    | cons d s' =>
        refine ⟨d, s', rfl, ?_⟩
        rintro rfl
        exact absurd (hline.bare [] '\n' s' rfl) (by decide)
  have hopen : Readable ⟨.plain, some [], us⟩ (c :: s) := by
    obtain ⟨ts, hts⟩ := hread
    rw [scan_begin hblank hhash hand hescaped] at hts
    exact ⟨ts, hts⟩
  obtain ⟨q, hq⟩ := wordEnd_passed _ le_rfl hline hopen hpast
  obtain ⟨ps, hps⟩ := hq.continues
  have hsplit := hq.split
  cases q with
  | nil =>
      have hlt := length_wordEnd (Bool.eq_false_of_not_eq_true hblank) hpast
      rw [hsplit] at hlt
      exact absurd hlt (Nat.lt_irrefl _)
  | cons e q =>
      obtain ⟨rfl, hs⟩ := List.cons.inj hsplit
      have hwithin : c = '\\' → ∃ d s', q = d :: s' ∧ d ≠ '\n' := by
        intro hc
        obtain ⟨d, s', heq, hd⟩ := hescaped hc
        cases q with
        | nil =>
            subst hc
            cases hps [] []
        | cons x q =>
            rw [hs] at heq
            obtain ⟨rfl, -⟩ := List.cons.inj heq
            exact ⟨x, q, rfl, hd⟩
      refine ⟨c :: q, ps, hsplit, fun vs => ?_, hq.ends, ?_⟩
      · rw [scan_begin hblank hhash hand hwithin, hps]
        rfl
      · cases hlast : (c :: q).getLast? with
        | none => exact absurd (List.getLast?_eq_none_iff.mp hlast) (List.cons_ne_nil c q)
        | some d => exact ⟨d, rfl, hq.last d hlast⟩

/-- The next word of the scan is the next word of the shell. -/
theorem next (h : At hook s texts ws) (hline : OneLine hook) (hread : Readable .start hook)
    (hnext : nextWord s = .ok (some (t, r))) : ∃ w, At hook r (texts ++ [t]) (ws ++ [w]) := by
  obtain ⟨⟨k, rfl, hlaid⟩, hends⟩ := h
  have hsplit := List.takeWhile_append_dropWhile (p := isBlank) (l := s)
  have hblanks : ∀ c ∈ s.takeWhile isBlank, isBlank c = true := fun c hc =>
    List.mem_takeWhile_imp hc
  rw [nextWord] at hnext
  split at hnext
  next => cases hnext
  next c s' hs =>
    split at hnext
    next => cases hnext
    next hhash =>
      split at hnext
      next m hm =>
        cases hnext
        have hblank : ¬isBlank c = true := by
          have hhead := List.head?_dropWhile_not isBlank s
          rw [hs] at hhead
          exact Bool.eq_false_iff.mp hhead
        have hpast : past (wordEnd (c :: s')) = .ok m.1 := by rw [past, hm]; rfl
        generalize m.1 = rest at hpast ⊢
        have hgap : ws ≠ [] → s.takeWhile isBlank ≠ [] := by
          intro hne hnil
          rw [hnil, hs] at hsplit
          rcases hends with hws | rfl | ⟨d, s'', rfl, hd⟩
          · exact hne hws
          · cases hsplit
          · obtain ⟨rfl, -⟩ := List.cons.inj hsplit
            exact hblank hd
        rw [hs] at hsplit
        rw [← hsplit] at hline hread
        have hword := (hread.append hlaid.scan).append (scan_blanks hblanks hgap)
        obtain ⟨q, w, heq, hspells, hafter, hlast⟩ :=
          spells_of_passed hblank hhash hline.right.right hword hpast
        have htake : (c :: s').take ((c :: s').length - rest.length) = q := by
          rw [heq, List.length_append, Nat.add_sub_cancel, List.take_left]
        refine ⟨w, ⟨k ++ (s.takeWhile isBlank ++ q), ?_, ?_⟩, .inr hafter⟩
        · rw [List.append_assoc, List.append_assoc, ← heq, hsplit]
        · rw [htake]
          exact .word hlaid hblanks hgap hspells hlast
      next => cases hnext

end At

/-- Options, each with its value if it takes one; the last may have none. -/
inductive Options : List (List Char) → Prop
  | nil : Options []
  | last {w : List Char} : isOption w = true → optionTakesValue w = true → Options [w]
  | flag {w : List Char} {ws : List (List Char)} : isOption w = true →
      optionTakesValue w = false → Options ws → Options (w :: ws)
  | valued {w v : List Char} {ws : List (List Char)} : isOption w = true →
      optionTakesValue w = true → Options ws → Options (w :: v :: ws)

section

variable {hook : List Char} (hline : OneLine hook) (hread : Readable .start hook)

include hline hread

theorem programEnd_at (n : Nat) : ∀ {s r : List Char} {texts : List (List Char)} {ws : List Word},
    s.length < n → At hook s texts ws → programEnd s = .ok r →
    ∃ vars program ws', At hook r (texts ++ (vars ++ [program])) (ws ++ ws') ∧
      (∀ v ∈ vars, isEnvAssignment v = true) ∧ isEnvAssignment program = false := by
  induction n with
  | zero =>
      intro s r texts ws hn
      exact absurd hn (Nat.not_lt_zero _)
  | succ n ih =>
      intro s r texts ws hn hat h
      rw [programEnd] at h
      split at h
      next => cases h
      next => cases h
      next t m hnext =>
        have hlt := length_nextWord hnext
        obtain ⟨w, hw⟩ := hat.next hline hread hnext
        split at h
        next hvar =>
          obtain ⟨vars, program, ws', hend, hvars, hprogram⟩ :=
            ih (hlt.trans_le (Nat.le_of_lt_succ hn)) hw h
          refine ⟨t :: vars, program, w :: ws', ?_, ?_, hprogram⟩
          · rw [List.append_assoc, List.append_assoc] at hend
            exact hend
          · intro v hv
            rcases List.mem_cons.mp hv with rfl | hv
            · exact hvar
            · exact hvars v hv
        next hvar =>
          cases h
          exact ⟨[], t, [w], hw, fun v hv => absurd hv List.not_mem_nil,
            Bool.eq_false_of_not_eq_true hvar⟩

theorem optionsEnd_at (n : Nat) : ∀ {s r : List Char} {texts : List (List Char)} {ws : List Word},
    s.length < n → At hook s texts ws → optionsEnd s = .ok r →
    ∃ opts ws', At hook r (texts ++ opts) (ws ++ ws') ∧ Options opts ∧
      ∀ t r', nextWord r = .ok (some (t, r')) → isOption t = false := by
  induction n with
  | zero =>
      intro s r texts ws hn
      exact absurd hn (Nat.not_lt_zero _)
  | succ n ih =>
      intro s r texts ws hn hat h
      have hstop : At hook s (texts ++ []) (ws ++ []) := by
        rw [List.append_nil, List.append_nil]
        exact hat
      rw [optionsEnd] at h
      split at h
      next => cases h
      next hnext =>
        cases h
        refine ⟨[], [], hstop, .nil, fun t r' ht => ?_⟩
        cases hnext.symm.trans ht
      next t m hnext =>
        have hlt := length_nextWord hnext
        have hle := hlt.trans_le (Nat.le_of_lt_succ hn)
        obtain ⟨w, hw⟩ := hat.next hline hread hnext
        split at h
        next hoption =>
          split at h
          next hvalue =>
            split at h
            next => cases h
            next hnone =>
              cases h
              refine ⟨[t], [w], hw, .last hoption hvalue, fun u r' hu => ?_⟩
              cases hnone.symm.trans hu
            next v m' hnext' =>
              obtain ⟨x, hx⟩ := hw.next hline hread hnext'
              obtain ⟨opts, ws', hend, hopts, hverb⟩ :=
                ih ((length_nextWord hnext').trans hle) hx h
              refine ⟨t :: v :: opts, w :: x :: ws', ?_, .valued hoption hvalue hopts, hverb⟩
              rw [List.append_assoc, List.append_assoc, List.append_assoc, List.append_assoc] at hend
              exact hend
          next hvalue =>
            obtain ⟨opts, ws', hend, hopts, hverb⟩ := ih hle hw h
            refine ⟨t :: opts, w :: ws', ?_,
              .flag hoption (Bool.eq_false_of_not_eq_true hvalue) hopts, hverb⟩
            rw [List.append_assoc, List.append_assoc] at hend
            exact hend
        next hoption =>
          cases h
          refine ⟨[], [], hstop, .nil, fun u r' hu => ?_⟩
          cases hnext.symm.trans hu
          exact Bool.eq_false_of_not_eq_true hoption

theorem prefixEnd_at (n : Nat) : ∀ {s r : List Char} {texts : List (List Char)} {ws : List Word}
    {program program' : Bool}, s.length < n → At hook s texts ws →
    prefixEnd s program = .ok (r, program') →
    ∃ texts' ws', At hook r texts' ws' ∧ nextWord r = .ok none := by
  induction n with
  | zero =>
      intro s r texts ws _ _ hn
      exact absurd hn (Nat.not_lt_zero _)
  | succ n ih =>
      intro s r texts ws _ _ hn hat h
      rw [prefixEnd] at h
      split at h
      next => cases h
      next hnext =>
        cases h
        exact ⟨texts, ws, hat, hnext⟩
      next t m hnext =>
        obtain ⟨w, hw⟩ := hat.next hline hread hnext
        exact ih ((length_nextWord hnext).trans_le (Nat.le_of_lt_succ hn)) hw h

end

def doctorWords : List Token :=
  [.word ("doctor".toList.map .bare), .word ("--json".toList.map .bare)]

/-- The text is cut where the scan is, and the two words come after it. -/
theorem At.ask {hook r : List Char} {texts : List (List Char)} {ws : List Word}
    (h : At hook r texts ws) :
    Shell.tokens (askDoctor hook r) = some (ws.map .word ++ doctorWords) := by
  obtain ⟨⟨k, rfl, hlaid⟩, -⟩ := h
  have hdoctor : Spells "doctor".toList ("doctor".toList.map .bare) :=
    Shell.spells_ordinary (by decide) (List.all_eq_true.mp (by decide))
  have hjson : Spells "--json".toList ("--json".toList.map .bare) :=
    Shell.spells_ordinary (by decide) (List.all_eq_true.mp (by decide))
  have hblank : ∀ c ∈ [' '], isBlank c = true := List.all_eq_true.mp (by decide)
  have hone := hlaid.word hblank (fun _ => List.cons_ne_nil _ _) hdoctor ⟨'r', by decide, by decide⟩
  have htwo := hone.word hblank (fun _ => List.cons_ne_nil _ _) hjson ⟨'n', by decide, by decide⟩
  have htext : askDoctor (k ++ r) r =
      k ++ ([' '] ++ "doctor".toList) ++ ([' '] ++ "--json".toList) := by
    rw [askDoctor, List.length_append, Nat.add_sub_cancel, List.take_left, hlaid.trimmed,
      List.append_assoc]
    rfl
  rw [htext, htwo.tokens, List.map_append, List.map_append, List.append_assoc]
  rfl

theorem tokens_close (st : Scan) : st.tokens <+: st.close.tokens := by
  rw [Scan.close]
  split
  · exact List.prefix_rfl
  · exact List.prefix_append _ _

/-- What the shell has read stays. -/
theorem tokens_step {st st' : Scan} {c : Char} (h : Shell.step st c = some st') :
    st.tokens <+: st'.tokens := by
  have hsame : ∀ {m : Scan}, some m = some st' → st.tokens = m.tokens →
      st.tokens <+: st'.tokens := by
    intro m heq hm
    cases heq
    exact ⟨[], (List.append_nil _).trans hm⟩
  simp only [Shell.step] at h
  split at h
  · split at h
    · cases h
      exact tokens_close st
    split at h
    · exact hsame h rfl
    split at h
    · exact hsame h rfl
    split at h
    · exact hsame h rfl
    split at h
    · cases h
      exact tokens_close st
    split at h
    · cases h
    · exact hsame h rfl
  · split at h <;> exact hsame h rfl
  · split at h
    · exact hsame h rfl
    split at h
    · exact hsame h rfl
    split at h
    · cases h
    · exact hsame h rfl
  · split at h <;> exact hsame h rfl
  · split at h
    · exact hsame h rfl
    · cases h
  · split at h
    · cases h
      exact List.prefix_append _ _
    · cases h

theorem tokens_scan {a : List Char} {st st' : Scan} (h : Shell.scan st a = some st') :
    st.tokens <+: st'.tokens := by
  induction a generalizing st with
  | nil =>
      cases h
      exact List.prefix_rfl
  | cons c a ih =>
      rw [Shell.scan_cons, Option.bind_eq_some_iff] at h
      obtain ⟨m, hm, h⟩ := h
      exact (tokens_step hm).trans (ih h)

namespace At

variable {hook r : List Char} {texts : List (List Char)} {ws : List Word} {ts : List Token}

theorem scan_rest (h : At hook r texts ws) (hts : Shell.tokens hook = some ts) :
    (Shell.scan (opened ws) r).bind Shell.finish = some ts := by
  obtain ⟨⟨k, rfl, hlaid⟩, -⟩ := h
  rw [Shell.tokens, Shell.scan_append, hlaid.scan] at hts
  exact hts

/-- The words of the text so far are the first tokens of all of it. -/
theorem prefix_tokens (h : At hook r texts ws) (hts : Shell.tokens hook = some ts) :
    ws.map .word <+: ts := by
  have hscan := h.scan_rest hts
  rcases h.ends with rfl | rfl | ⟨c, r', rfl, hc⟩
  · exact List.nil_prefix
  · obtain ⟨⟨k, heq, hlaid⟩, -⟩ := h
    rw [List.append_nil] at heq
    rw [heq, hlaid.tokens] at hts
    cases hts
    exact List.prefix_rfl
  · have hblank : Shell.scan (opened ws) [c] = some ⟨.plain, none, ws.map .word⟩ :=
      scan_blanks (fun d hd => (List.mem_singleton.mp hd).symm ▸ hc) fun _ => List.cons_ne_nil c []
    rw [← List.singleton_append, Shell.scan_append, hblank, Option.bind_some,
      Option.bind_eq_some_iff] at hscan
    obtain ⟨st, hst, hfinish⟩ := hscan
    rw [Shell.finish] at hfinish
    split at hfinish
    next =>
      cases hfinish
      exact (tokens_scan hst).trans (tokens_close st)
    next => cases hfinish

/-- When no word is left, these are all. -/
theorem all_tokens (h : At hook r texts ws) (hts : Shell.tokens hook = some ts)
    (hnone : nextWord r = .ok none) : ts = ws.map .word := by
  have hscan := h.scan_rest hts
  have hsplit := List.takeWhile_append_dropWhile (p := isBlank) (l := r)
  have hblanks : ∀ c ∈ r.takeWhile isBlank, isBlank c = true := fun c hc =>
    List.mem_takeWhile_imp hc
  cases hrest : r.dropWhile isBlank with
  | nil =>
      rw [hrest, List.append_nil] at hsplit
      rw [hsplit] at hblanks
      by_cases hr : r = []
      · obtain ⟨⟨k, heq, hlaid⟩, -⟩ := h
        rw [hr, List.append_nil] at heq
        rw [heq, hlaid.tokens] at hts
        cases hts
        rfl
      · rw [scan_blanks hblanks fun _ => hr] at hscan
        cases hscan
        rfl
  | cons c s =>
      rw [nextWord, hrest] at hnone
      simp only at hnone
      split at hnone
      next hc =>
        subst hc
        have hgap : ws ≠ [] → r.takeWhile isBlank ≠ [] := by
          intro hne hnil
          rw [hnil, hrest] at hsplit
          rcases h.ends with hws | hr | ⟨d, r', hr, hd⟩
          · exact hne hws
          · rw [hr] at hsplit
            cases hsplit
          · rw [hr] at hsplit
            obtain ⟨rfl, -⟩ := List.cons.inj hsplit
            exact absurd hd (by decide)
        rw [← hsplit, hrest, Shell.scan_append, scan_blanks hblanks hgap, Option.bind_some] at hscan
        cases hscan
      next =>
        split at hnone
        · cases hnone
        · cases hnone

end At

/-- The shell reads the doctor command `cmd` as the words `ws` that the hook begins with, and two
more. They are the assignments, the program and the options in front of the first other word. -/
structure Asks (hook : List Char) (ts : List Token) (cmd : List Char) (vars : List (List Char))
    (program : List Char) (opts : List (List Char)) (ws : List Word) (rest : List Char) : Prop where
  kept : ∃ k, hook = k ++ rest ∧ Laid k (vars ++ [program] ++ opts) ws
  vars : ∀ v ∈ vars, isEnvAssignment v = true
  program : isEnvAssignment program = false
  opts : Options opts
  verb : ∀ t r, nextWord rest = .ok (some (t, r)) → isOption t = false
  first : ws.map .word <+: ts
  tokens : Shell.tokens cmd = some (ws.map .word ++ doctorWords)

/-- A hook with a credential and an option. -/
def amtHook : List Char := "AMT_PASSWORD='a b' amt -d host cycle && echo done".toList

end DoctorCommand

end Cli

end Paniolo
