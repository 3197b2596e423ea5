import Mathlib.Data.Nat.Bitwise
import Paniolo.Serialcap.Auth

/-!
# The gate of the daemons

Every request to a daemon's HTTP API is checked for its host, its origin and
its token. The Rust daemons share `auth.rs` for it (`require`); the JetKVM
daemon has the same rules in Go (`requireAuth` of `auth.go`). The two are
written with different string operations, and the Rust gate does not read a
header with a byte that is not visible ASCII at all.

A byte of a header or of a query is written as the character of that number.
-/

namespace Paniolo

namespace Daemon

namespace Gate

open Text Serialcap.Auth

/-- A request as far as the gates read it; of a header that is repeated, the first value. -/
structure Request where
  host : Option (List Char)
  origin : Option (List Char)
  authorization : Option (List Char)
  path : List Char
  query : Option (List Char)

/-- What becomes of a request: it is refused with a status, perhaps a challenge, and a body, or it
goes on to its handler. `origin` is the one that the reply allows. -/
inductive Verdict where
  | refused (status : Nat) (challenge : Bool) (origin : Option (List Char)) (body : String)
  | passed (origin : Option (List Char))
deriving DecidableEq

def badHost : Verdict :=
  .refused 403 false none "forbidden: this daemon answers only loopback Host names\n"

def badOrigin : Verdict :=
  .refused 403 false none "forbidden: cross-origin requests are not accepted\n"

def badToken (origin : Option (List Char)) : Verdict :=
  .refused 401 true origin ("unauthorized: send the token from daemon.json as " ++
    "`Authorization: Bearer <token>` or `?token=<token>`\n")

/-! ### The Rust daemons -/

/-- Visible ASCII, or a tab. -/
def visible (c : Char) : Bool :=
  decide (32 ≤ c.toNat ∧ c.toNat < 127) || c == '\t'

/-- `HeaderValue::to_str`. -/
def toStr (value : List Char) : Option (List Char) :=
  if value.all visible then some value else none

/-- `ct_eq`. -/
def ctEq (a b : List Char) : Bool :=
  if a.length ≠ b.length then false
  else (a.zip b).foldl (fun diff p => diff ||| (p.1.toNat ^^^ p.2.toNat)) 0 == 0

def bearer (r : Request) : Option (List Char) :=
  (r.authorization.bind toStr).bind fun value =>
    (splitOnce (· == ' ') (trim value)).bind fun pair =>
      if eqIgnoreAsciiCase pair.1 "bearer".toList then some (trim pair.2) else none

def queryToken (query : Option (List Char)) : Option (List Char) :=
  query.bind fun q => (q.splitOn '&').findSome? (stripPrefix "token=".toList)

def presentsToken (r : Request) (token : List Char) : Bool :=
  (bearer r).any (ctEq · token) || (queryToken r.query).any (ctEq · token)

/-- The token, and the paths that are served without one. -/
structure Auth where
  token : List Char
  exempt : List (List Char)

def require (auth : Auth) (r : Request) : Verdict :=
  if ¬(r.host.bind toStr).any isLoopbackAuthority then badHost
  else if r.origin.any fun o => !(toStr o).any isLoopbackOrigin then badOrigin
  else if ¬auth.exempt.contains r.path ∧ ¬presentsToken r auth.token then badToken r.origin
  else .passed r.origin

/-! ### The Go daemon -/

namespace Go

/-- The string functions that depend on Unicode. -/
structure Strings where
  trimSpace : List Char → List Char
  toLower : List Char → List Char
  equalFold : List Char → List Char → Bool

/-- What they do with visible ASCII. -/
structure Strings.Lawful (lib : Strings) : Prop where
  trimSpace : ∀ s, s.all visible = true → lib.trimSpace s = trim s
  toLower : ∀ s, s.all visible = true → lib.toLower s = toAsciiLowercase s
  equalFold : ∀ s t, s.all visible = true → t.all visible = true →
    lib.equalFold s t = eqIgnoreAsciiCase s t

/-- `strings.Index` of one character. -/
def index (s : List Char) (c : Char) : Option Nat :=
  s.findIdx? (· == c)

/-- `strings.LastIndex`. -/
def lastIndex (s : List Char) (c : Char) : Option Nat :=
  (index s.reverse c).map fun i => s.length - 1 - i

/-- `strings.Cut`. -/
def cut (s : List Char) (c : Char) : Option (List Char × List Char) :=
  (index s c).map fun i => (s.take i, s.drop (i + 1))

def hostPart (authority : List Char) : List Char :=
  if "[".toList.isPrefixOf authority then
    match index authority ']' with
    | some i => authority.take (i + 1)
    | none => authority
  else
    match lastIndex authority ':' with
    | some i => authority.take i
    | none => authority

def isLoopbackAuthority (lib : Strings) (authority : List Char) : Bool :=
  loopbackHosts.any (lib.toLower (hostPart (lib.trimSpace authority)) == ·)

def isLoopbackOrigin (lib : Strings) (origin : List Char) : Bool :=
  match (stripPrefix "http://".toList origin).or (stripPrefix "https://".toList origin) with
  | some rest => if rest = [] ∨ rest.contains '/' then false else isLoopbackAuthority lib rest
  | none => false

def bearer (lib : Strings) (r : Request) : Option (List Char) :=
  (cut (lib.trimSpace (r.authorization.getD [])) ' ').bind fun pair =>
    if lib.equalFold pair.1 "bearer".toList then some (lib.trimSpace pair.2) else none

def queryToken (rawQuery : List Char) : Option (List Char) :=
  (rawQuery.splitOn '&').findSome? (stripPrefix "token=".toList)

/-- `subtle.ConstantTimeCompare`. -/
def tokenEq (a b : List Char) : Bool :=
  decide (a = b)

def presentsToken (lib : Strings) (r : Request) (token : List Char) : Bool :=
  (bearer lib r).any (tokenEq · token) || (queryToken (r.query.getD [])).any (tokenEq · token)

def requireAuth (lib : Strings) (token : List Char) (r : Request) : Verdict :=
  if ¬isLoopbackAuthority lib (r.host.getD []) ∨ r.host.getD [] = [] then badHost
  else if r.origin.any fun o => !isLoopbackOrigin lib o then badOrigin
  else if ¬presentsToken lib r token then badToken r.origin
  else .passed r.origin

end Go

/-! ### The string operations -/

section Ops

variable {s t : List Char}

/-- The loop over the bytes finds every difference. -/
theorem foldl_or_eq_zero (ps : List (Char × Char)) (diff : Nat) :
    ps.foldl (fun diff p => diff ||| (p.1.toNat ^^^ p.2.toNat)) diff = 0 ↔
      diff = 0 ∧ ∀ p ∈ ps, p.1 = p.2 := by
  induction ps generalizing diff with
  | nil => exact ⟨fun h => ⟨h, fun p hp => absurd hp List.not_mem_nil⟩, fun h => h.1⟩
  | cons p ps ih =>
      have hxor : p.1.toNat ^^^ p.2.toNat = 0 ↔ p.1 = p.2 := by
        rw [Nat.xor_eq_zero_iff]
        exact Char.toNat_inj
      rw [List.foldl_cons, ih, Nat.or_eq_zero_iff, hxor, List.forall_mem_cons, and_assoc]

theorem ctEq_eq (s t : List Char) : ctEq s t = decide (s = t) := by
  rw [ctEq, Bool.eq_iff_iff, decide_eq_true_eq]
  by_cases hlen : s.length = t.length
  · rw [if_neg (not_not_intro hlen), beq_iff_eq, foldl_or_eq_zero]
    constructor
    · rintro ⟨-, hall⟩
      refine List.ext_getElem hlen fun i hi hi' => ?_
      exact hall (s[i], t[i]) (List.mem_iff_getElem.mpr
        ⟨i, by rw [List.length_zip, ← hlen, Nat.min_self]; exact hi, List.getElem_zip⟩)
    · rintro rfl
      refine ⟨rfl, fun p hp => ?_⟩
      obtain ⟨i, hi, rfl⟩ := List.mem_iff_getElem.mp hp
      rw [List.getElem_zip]
  · rw [if_pos hlen]
    exact ⟨fun h => Bool.noConfusion h, fun h => absurd (congrArg List.length h) hlen⟩

theorem index_append {c : Char} (hs : c ∉ s) : Go.index (s ++ c :: t) c = some s.length := by
  rw [Go.index, List.findIdx?_append]
  have hnone : s.findIdx? (· == c) = none :=
    List.findIdx?_eq_none_iff.mpr fun x hx => beq_of_notMem hs x hx
  rw [hnone, List.findIdx?_cons]
  simp

theorem index_none {c : Char} (hs : c ∉ s) : Go.index s c = none :=
  List.findIdx?_eq_none_iff.mpr fun x hx => beq_of_notMem hs x hx

theorem notMem_of_beq {c : Char} (h : ∀ x ∈ s, (x == c) = false) : c ∉ s :=
  fun hc => absurd (h c hc) (by rw [beq_self_eq_true]; exact Bool.noConfusion)

/-- `strings.Cut` is `split_once`. -/
theorem cut_eq (s : List Char) (c : Char) : Go.cut s c = splitOnce (· == c) s := by
  cases hsplit : splitOnce (· == c) s with
  | none => rw [Go.cut, index_none (notMem_of_beq (splitOnce_eq_none hsplit)), Option.map_none]
  | some pair =>
      obtain ⟨d, hd, rfl, hbefore⟩ := splitOnce_eq_some hsplit
      rw [beq_iff_eq] at hd
      subst hd
      rw [Go.cut, index_append (notMem_of_beq hbefore), Option.map_some, List.take_left,
        ← List.drop_drop, List.drop_left, List.drop_one, List.tail_cons]

theorem hostPart_eq (s : List Char) : Go.hostPart s = hostPart s := by
  have hbracket : "[".toList.isPrefixOf s = true ↔ s.head? = some '[' := by
    cases s with
    | nil => decide
    | cons c s =>
        change ('[' == c && List.isPrefixOf [] s) = true ↔ some c = some '['
        rw [List.isPrefixOf_nil_left, Bool.and_true, beq_iff_eq, Option.some_inj, eq_comm]
  rw [Go.hostPart, hostPart]
  by_cases hhead : s.head? = some '['
  · rw [if_pos (hbracket.mpr hhead), if_pos hhead]
    cases hsplit : splitOnce (· == ']') s with
    | none => rw [index_none (notMem_of_beq (splitOnce_eq_none hsplit))]
    | some pair =>
        obtain ⟨d, hd, rfl, hbefore⟩ := splitOnce_eq_some hsplit
        rw [beq_iff_eq] at hd
        subst hd
        rw [index_append (notMem_of_beq hbefore)]
        dsimp only
        rw [List.append_cons, List.take_left' (by rw [List.length_append, List.length_singleton])]
  · rw [if_neg fun h => hhead (hbracket.mp h), if_neg hhead]
    cases hsplit : rsplitOnce (· == ':') s with
    | none =>
        have hnone : splitOnce (· == ':') s.reverse = none := Option.map_eq_none_iff.mp hsplit
        rw [Go.lastIndex, index_none (notMem_of_beq (splitOnce_eq_none hnone)), Option.map_none]
    | some pair =>
        obtain ⟨d, hd, rfl, hafter⟩ := rsplitOnce_eq_some hsplit
        rw [beq_iff_eq] at hd
        subst hd
        have hrev : (pair.1 ++ ':' :: pair.2).reverse =
            pair.2.reverse ++ ':' :: pair.1.reverse := by
          rw [List.reverse_append, List.reverse_cons, List.append_assoc, List.singleton_append]
        have hnot : ':' ∉ pair.2.reverse := fun h =>
          notMem_of_beq hafter (List.mem_reverse.mp h)
        rw [Go.lastIndex, hrev, index_append hnot, Option.map_some]
        have hlen : (pair.1 ++ ':' :: pair.2).length - 1 - pair.2.reverse.length =
            pair.1.length := by
          rw [List.length_append, List.length_cons, List.length_reverse]
          omega
        dsimp only
        rw [hlen, List.take_left]

end Ops

/-! ### Visible texts -/

section Visible

variable {s t : List Char}

theorem visible_of_subset (hst : s ⊆ t) (ht : t.all visible = true) : s.all visible = true :=
  List.all_eq_true.mpr fun c hc => List.all_eq_true.mp ht c (hst hc)

theorem trim_subset (s : List Char) : trim s ⊆ s := by
  intro c hc
  have hstart : c ∈ trimStart s := by
    rw [trim, List.rdropWhile, List.mem_reverse] at hc
    exact List.mem_reverse.mp ((List.dropWhile_suffix isWhitespace).subset hc)
  exact (List.dropWhile_suffix isWhitespace).subset hstart

theorem hostPart_subset (s : List Char) : hostPart s ⊆ s := by
  obtain ⟨tail, hs, -⟩ := exists_discarded s
  intro c hc
  rw [hs]
  exact List.mem_append_left tail hc

theorem stripPrefix_subset {k rest : List Char} (h : stripPrefix k s = some rest) : rest ⊆ s := by
  rw [stripPrefix_eq_some.mp h]
  exact List.subset_append_right k rest

theorem splitOnce_subset {p : Char → Bool} {pair : List Char × List Char}
    (h : splitOnce p s = some pair) : pair.1 ⊆ s ∧ pair.2 ⊆ s := by
  obtain ⟨c, -, rfl, -⟩ := splitOnce_eq_some h
  exact ⟨List.subset_append_left _ _, fun x hx =>
    List.mem_append_right _ (List.mem_cons_of_mem c hx)⟩

theorem toStr_eq_some {value : List Char} : toStr value = some s ↔ value.all visible = true ∧
    value = s := by
  rw [toStr, Option.ite_none_right_eq_some, Option.some_inj]

theorem toStr_of_visible (h : s.all visible = true) : toStr s = some s :=
  toStr_eq_some.mpr ⟨h, rfl⟩

end Visible

/-! ### The two gates -/

section Agree

variable {lib : Go.Strings} {s : List Char} {r : Request}

/-- Every header that the gates read is visible ASCII. -/
def Request.Visible (r : Request) : Prop :=
  ∀ value ∈ [r.host, r.origin, r.authorization], ∀ s ∈ value, s.all visible = true

theorem isLoopbackAuthority_eq (hlib : lib.Lawful) (hs : s.all visible = true) :
    Go.isLoopbackAuthority lib s = isLoopbackAuthority s := by
  have htrim : (trim s).all visible = true := visible_of_subset (trim_subset s) hs
  rw [Go.isLoopbackAuthority, isLoopbackAuthority, hlib.trimSpace s hs, hostPart_eq,
    hlib.toLower _ (visible_of_subset (hostPart_subset _) htrim), List.contains_eq_any_beq]

theorem isLoopbackOrigin_eq (hlib : lib.Lawful) (hs : s.all visible = true) :
    Go.isLoopbackOrigin lib s = isLoopbackOrigin s := by
  rw [Go.isLoopbackOrigin, isLoopbackOrigin]
  cases hrest : (stripPrefix "http://".toList s).or (stripPrefix "https://".toList s) with
  | none => rfl
  | some rest =>
      have hsub : rest ⊆ s := by
        rcases Option.or_eq_some_iff.mp hrest with h | ⟨-, h⟩
        · exact stripPrefix_subset h
        · exact stripPrefix_subset h
      dsimp only
      rw [isLoopbackAuthority_eq hlib (visible_of_subset hsub hs)]
      by_cases hbad : rest = [] ∨ rest.contains '/' = true
      · rw [if_pos hbad, if_pos (by rw [Bool.or_eq_true, List.isEmpty_iff]; exact hbad)]
      · rw [if_neg hbad, if_neg (by rw [Bool.or_eq_true, List.isEmpty_iff]; exact hbad)]

/-- The token of a header that can be read. -/
theorem bearer_eq (hlib : lib.Lawful) (hs : r.authorization = some s)
    (hvisible : s.all visible = true) : Go.bearer lib r = bearer r := by
  have hname : "bearer".toList.all visible = true := by decide
  have htrim : (trim s).all visible = true := visible_of_subset (trim_subset s) hvisible
  rw [Go.bearer, bearer, hs, Option.getD_some, hlib.trimSpace s hvisible, cut_eq,
    Option.bind_some, toStr_of_visible hvisible, Option.bind_some]
  cases hsplit : splitOnce (· == ' ') (trim s) with
  | none => rfl
  | some pair =>
      obtain ⟨hscheme, hrest⟩ := splitOnce_subset hsplit
      rw [Option.bind_some, Option.bind_some,
        hlib.equalFold _ _ (visible_of_subset hscheme htrim) hname,
        hlib.trimSpace _ (visible_of_subset hrest htrim)]

theorem bearer_none (hlib : lib.Lawful) (hs : r.authorization = none) :
    Go.bearer lib r = none := by
  have hempty : ([] : List Char).all visible = true := rfl
  rw [Go.bearer, hs, Option.getD_none, hlib.trimSpace [] hempty]
  rfl

theorem queryToken_eq (query : Option (List Char)) :
    Go.queryToken (query.getD []) = queryToken query := by
  cases query with
  | none => decide
  | some q => rfl

theorem tokenEq_eq (a b : List Char) : Go.tokenEq a b = ctEq a b := (ctEq_eq a b).symm

/-- A token that the Rust gate finds is found by the Go gate. -/
theorem presentsToken_of (hlib : lib.Lawful) {token : List Char}
    (h : presentsToken r token = true) : Go.presentsToken lib r token = true := by
  rw [presentsToken, Bool.or_eq_true] at h
  rw [Go.presentsToken, Bool.or_eq_true, queryToken_eq]
  simp only [tokenEq_eq]
  refine h.imp_left fun hheader => ?_
  obtain ⟨t, ht, heq⟩ := (Option.any_eq_true _ _).mp hheader
  obtain ⟨value, hvalue, -⟩ := Option.bind_eq_some_iff.mp ht
  obtain ⟨s, hs, hstr⟩ := Option.bind_eq_some_iff.mp hvalue
  rw [bearer_eq hlib hs (toStr_eq_some.mp hstr).1]
  exact hheader

theorem presentsToken_eq (hlib : lib.Lawful) (hr : r.Visible) (token : List Char) :
    Go.presentsToken lib r token = presentsToken r token := by
  rw [Go.presentsToken, presentsToken, queryToken_eq]
  simp only [tokenEq_eq]
  cases hs : r.authorization with
  | none =>
      rw [bearer_none hlib hs, bearer, hs]
      rfl
  | some s => rw [bearer_eq hlib hs (hr _ (by simp) s hs)]

/-- A request that passes the Rust gate has a host that can be read, and so is its origin. -/
theorem passed_cases {auth : Auth} {cors : Option (List Char)}
    (h : require auth r = .passed cors) :
    (∃ host, r.host = some host ∧ host.all visible = true ∧ isLoopbackAuthority host = true) ∧
      (∀ o ∈ r.origin, o.all visible = true ∧ isLoopbackOrigin o = true) ∧
      (auth.exempt.contains r.path = true ∨ presentsToken r auth.token = true) ∧
      cors = r.origin := by
  rw [require, badHost, badOrigin, badToken] at h
  split_ifs at h with hhost horigin htoken
  obtain ⟨s, hs, hloop⟩ := (Option.any_eq_true _ _).mp hhost
  obtain ⟨host, heq, hstr⟩ := Option.bind_eq_some_iff.mp hs
  obtain ⟨hvisible, rfl⟩ := toStr_eq_some.mp hstr
  refine ⟨⟨host, heq, hvisible, hloop⟩, fun o ho => ?_, ?_, (Verdict.passed.inj h).symm⟩
  · by_contra hnot
    refine horigin ((Option.any_eq_true _ _).mpr ⟨o, ho, ?_⟩)
    rw [Bool.not_eq_true']
    by_contra hany
    rw [Bool.not_eq_false] at hany
    obtain ⟨s, hs, hloop⟩ := (Option.any_eq_true _ _).mp hany
    obtain ⟨hvisible, rfl⟩ := toStr_eq_some.mp hs
    exact hnot ⟨hvisible, hloop⟩
  · by_contra hnot
    rw [not_or] at hnot
    exact htoken hnot

/-- What passes the gate of the Rust daemons passes that of the Go daemon, with the same origin in
the reply; where every header can be read, the two also refuse the same requests with the same
words. -/
theorem gates_agree (hlib : lib.Lawful) (token : List Char) (r : Request) :
    (∀ cors, require ⟨token, []⟩ r = .passed cors → Go.requireAuth lib token r = .passed cors) ∧
      (r.Visible → Go.requireAuth lib token r = require ⟨token, []⟩ r) := by
  constructor
  · intro cors h
    obtain ⟨⟨host, hhost, hvisible, hloop⟩, horigin, htoken, rfl⟩ := passed_cases h
    have hexempt : ¬(⟨token, []⟩ : Auth).exempt.contains r.path = true := Bool.false_ne_true
    have hpresents := presentsToken_of hlib (htoken.resolve_left hexempt)
    have hne : host ≠ [] := by
      rintro rfl
      exact absurd hloop (by decide)
    have hall : ¬(r.origin.any fun o => !Go.isLoopbackOrigin lib o) = true := by
      intro hany
      obtain ⟨o, ho, hnot⟩ := (Option.any_eq_true _ _).mp hany
      obtain ⟨hvis, hgate⟩ := horigin o ho
      rw [isLoopbackOrigin_eq hlib hvis, hgate] at hnot
      cases hnot
    rw [Go.requireAuth, hhost, Option.getD_some, isLoopbackAuthority_eq hlib hvisible,
      if_neg fun hbad => hbad.elim (fun hbad => hbad hloop) hne, if_neg hall,
      if_neg (not_not_intro hpresents)]
  · intro hr
    have hhost : (¬Go.isLoopbackAuthority lib (r.host.getD []) = true ∨ r.host.getD [] = []) ↔
        ¬((r.host.bind toStr).any isLoopbackAuthority) = true := by
      cases hs : r.host with
      | none => exact ⟨fun _ => Bool.false_ne_true, fun _ => .inr rfl⟩
      | some s =>
          have hvis : s.all visible = true := hr _ (by simp) s hs
          rw [Option.getD_some, isLoopbackAuthority_eq hlib hvis, Option.bind_some,
            toStr_of_visible hvis, Option.any_some]
          refine or_iff_left_of_imp ?_
          rintro rfl
          decide
    have horigin : (r.origin.any fun o => !Go.isLoopbackOrigin lib o) =
        r.origin.any fun o => !(toStr o).any isLoopbackOrigin := by
      cases ho : r.origin with
      | none => rfl
      | some o =>
          have hvis : o.all visible = true := hr _ (by simp) o ho
          rw [Option.any_some, Option.any_some, isLoopbackOrigin_eq hlib hvis,
            toStr_of_visible hvis, Option.any_some]
    have hexempt : (⟨token, []⟩ : Auth).exempt.contains r.path = false := rfl
    rw [Go.requireAuth, require, hexempt, if_congr hhost rfl rfl, horigin, presentsToken_eq hlib hr]
    simp only [Bool.false_eq_true, not_false_eq_true, true_and]

/-- A page of another daemon sends the token in the query; a byte that is not visible hides the
header beside it from the Rust daemons. -/
theorem gates_agree_page :
    (⟨"127.0.0.1:8080".toList, "http://localhost:7070".toList, none, "/hid".toList,
        "a=1&token=3f".toList⟩ : Request).Visible ∧
      Go.requireAuth ⟨trim, toAsciiLowercase, eqIgnoreAsciiCase⟩ "3f".toList
          ⟨"127.0.0.1:8080".toList, "http://localhost:7070".toList, none, "/hid".toList,
            "a=1&token=3f".toList⟩ = .passed "http://localhost:7070".toList ∧
      Go.requireAuth ⟨trim, toAsciiLowercase, eqIgnoreAsciiCase⟩ "3f".toList
          ⟨"[::1]".toList, none, "Bearer \xe9".toList, "/hid".toList, "token=3f".toList⟩ =
        .passed none := by
  have hlib : (⟨trim, toAsciiLowercase, eqIgnoreAsciiCase⟩ : Go.Strings).Lawful :=
    ⟨fun _ _ => rfl, fun _ _ => rfl, fun _ _ _ _ => rfl⟩
  have hvisible : (⟨"127.0.0.1:8080".toList, "http://localhost:7070".toList, none, "/hid".toList,
      "a=1&token=3f".toList⟩ : Request).Visible := by
    rw [Request.Visible]
    decide
  refine ⟨hvisible, ?_, ?_⟩
  · rw [(gates_agree hlib _ _).2 hvisible]
    decide +kernel
  · exact (gates_agree hlib _ _).1 none (by decide +kernel)

end Agree

end Gate

end Daemon

end Paniolo
