import Paniolo.Library.Text

/-!
# The loopback gate

`serialcap/src/auth.rs`: a request must name a loopback host, and a browser must come
from a loopback origin. The host is what stands before the last colon, or up to the
bracket that closes an address. What follows it is thrown away unread, so the gate
lets in more than a host and a port.
-/

namespace Paniolo

namespace Serialcap

namespace Auth

open Text

/-- `LOOPBACK_HOSTS`. -/
def loopbackHosts : List (List Char) :=
  ["127.0.0.1".toList, "localhost".toList, "[::1]".toList]

/-- `host_part`. -/
def hostPart (authority : List Char) : List Char :=
  if authority.head? = some '[' then
    match splitOnce (· == ']') authority with
    | some (address, _) => address ++ [']']
    | none => authority
  else
    match rsplitOnce (· == ':') authority with
    | some (host, _) => host
    | none => authority

/-- `is_loopback_authority`. -/
def isLoopbackAuthority (authority : List Char) : Bool :=
  loopbackHosts.contains (toAsciiLowercase (hostPart (trim authority)))

/-- `is_loopback_origin`. -/
def isLoopbackOrigin (origin : List Char) : Bool :=
  match (stripPrefix "http://".toList origin).or (stripPrefix "https://".toList origin) with
  | some authority =>
      if authority.isEmpty || authority.contains '/' then false else isLoopbackAuthority authority
  | none => false

section Grammar

/-- One of the hosts, in upper or lower case. -/
def LoopbackHost (host : List Char) : Prop := toAsciiLowercase host ∈ loopbackHosts

/-- Nothing, or a colon and a decimal port. -/
def PortSuffix (tail : List Char) : Prop :=
  tail = [] ∨ ∃ port, tail = ':' :: port ∧ port ≠ [] ∧ ∀ c ∈ port, c.isDigit = true

/-- A loopback host and perhaps a port. -/
def Authority (s : List Char) : Prop :=
  ∃ host tail, s = host ++ tail ∧ LoopbackHost host ∧ PortSuffix tail

def schemes : List (List Char) := ["http://".toList, "https://".toList]

/-- A scheme and such an authority. -/
def Origin (s : List Char) : Prop :=
  ∃ scheme ∈ schemes, ∃ authority, s = scheme ++ authority ∧ Authority authority

/-- What `host_part` throws away: anything after a bracket, else the last colon and what follows. -/
def Discarded (host tail : List Char) : Prop :=
  tail = [] ∨ host.head? = some '[' ∨ ∃ rest, tail = ':' :: rest ∧ ':' ∉ rest

/-- A loopback host with something after it that is thrown away and is no port. -/
def JunkTail (s : List Char) : Prop :=
  ∃ host tail, s = host ++ tail ∧ LoopbackHost host ∧ Discarded host tail ∧ ¬PortSuffix tail

/-- An origin whose authority has such a tail, or white space around it. -/
def JunkOrigin (s : List Char) : Prop :=
  ∃ scheme ∈ schemes, ∃ authority, s = scheme ++ authority ∧ '/' ∉ authority ∧
    (JunkTail (trim authority) ∨ Authority (trim authority) ∧ trim authority ≠ authority)

end Grammar

section Host

variable {s host tail : List Char}

theorem mem_toAsciiLowercase {c : Char} (h : c ∈ s) : c.toLower ∈ toAsciiLowercase s :=
  List.mem_map_of_mem h

/-- The bracketed host is written in one way; the others have neither a bracket in front nor a
colon. -/
theorem LoopbackHost.cases (h : LoopbackHost host) :
    host = "[::1]".toList ∨ host.head? ≠ some '[' ∧ ∀ c ∈ host, (c == ':') = false := by
  have hplain : ∀ l ∈ ["127.0.0.1".toList, "localhost".toList], toAsciiLowercase host = l →
      host.head? ≠ some '[' ∧ ∀ c ∈ host, (c == ':') = false := by
    intro l hl heq
    have hmem : ∀ c ∈ host, c.toLower ∈ l := fun c hc => heq ▸ mem_toAsciiLowercase hc
    have hall : ∀ l ∈ ["127.0.0.1".toList, "localhost".toList], '[' ∉ l ∧ ':' ∉ l := by decide
    refine ⟨fun hhead => (hall l hl).1 (hmem _ (List.mem_of_mem_head? hhead)), fun c hc => ?_⟩
    rw [beq_eq_false_iff_ne]
    rintro rfl
    exact (hall l hl).2 (hmem _ hc)
  rcases List.mem_cons.mp h with h | h
  · exact .inr (hplain _ List.mem_cons_self h)
  · rcases List.mem_cons.mp h with h | h
    · exact .inr (hplain _ (List.mem_cons_of_mem _ List.mem_cons_self) h)
    · left
      have heq : host.map Char.toLower = "[::1]".toList := List.mem_singleton.mp h
      have hfixed : ("[::1]".toList.all fun d => decide (d.toNat < 97)) = true := by decide
      apply List.ext_getElem
      · rw [← heq, List.length_map]
      · intro i hi hi'
        have hget : (host[i]).toLower = "[::1]".toList[i] := by
          simp only [← heq, List.getElem_map]
        have hsmall := List.all_eq_true.mp hfixed _ (List.getElem_mem hi')
        exact eq_of_toLower hget (.inl (of_decide_eq_true hsmall))

/-- The host part is the host, whatever is thrown away. -/
theorem hostPart_append (h : LoopbackHost host) (ht : Discarded host tail) :
    hostPart (host ++ tail) = host := by
  rcases h.cases with rfl | ⟨hhead, hcolon⟩
  · have hany : "[::1".toList.any (· == ']') = false := by decide
    have haddress : ∀ c ∈ "[::1".toList, (c == ']') = false := fun c hc =>
      Bool.eq_false_iff.mpr (List.any_eq_false.mp hany c hc)
    have hsplit : splitOnce (· == ']') ("[::1]".toList ++ tail) = some ("[::1".toList, tail) :=
      splitOnce_append haddress rfl tail
    have hfront : ("[::1]".toList ++ tail).head? = some '[' := rfl
    rw [hostPart, if_pos hfront, hsplit]
    rfl
  · have hne : host ≠ [] := by
      rintro rfl
      have hnone : [] ∉ loopbackHosts := by decide
      exact hnone h
    have hfront : (host ++ tail).head? ≠ some '[' := by
      rw [List.head?_append_of_ne_nil _ hne]
      exact hhead
    rw [hostPart, if_neg hfront]
    rcases ht with rfl | hbracket | ⟨rest, rfl, hrest⟩
    · rw [List.append_nil, rsplitOnce_none hcolon]
    · exact absurd hbracket hhead
    · rw [rsplitOnce_append _ rfl]
      intro c hc
      rw [beq_eq_false_iff_ne]
      rintro rfl
      exact hrest hc

/-- Every authority is its host part and what is thrown away. -/
theorem exists_discarded (s : List Char) :
    ∃ tail, s = hostPart s ++ tail ∧ Discarded (hostPart s) tail := by
  rw [hostPart]
  split
  · next hhead =>
      split
      · next address rest hsplit =>
          obtain ⟨c, hc, rfl, haddress⟩ := splitOnce_eq_some hsplit
          rw [beq_iff_eq] at hc
          subst hc
          refine ⟨rest, (List.append_cons address ']' rest), .inr (.inl ?_)⟩
          cases address with
          | nil => cases hhead
          | cons a address => exact hhead
      · exact ⟨[], (List.append_nil s).symm, .inl rfl⟩
  · split
    · next host rest hsplit =>
        obtain ⟨c, hc, rfl, hrest⟩ := rsplitOnce_eq_some hsplit
        rw [beq_iff_eq] at hc
        subst hc
        refine ⟨':' :: rest, rfl, .inr (.inr ⟨rest, rfl, fun hmem => ?_⟩)⟩
        exact absurd (hrest _ hmem) (by decide)
    · exact ⟨[], (List.append_nil s).symm, .inl rfl⟩

theorem PortSuffix.discarded (h : PortSuffix tail) : Discarded host tail := by
  rcases h with rfl | ⟨port, rfl, -, hdigits⟩
  · exact .inl rfl
  · refine .inr (.inr ⟨port, rfl, fun hmem => ?_⟩)
    exact absurd (hdigits _ hmem) (by decide)

end Host

section Gate

variable {s : List Char}

theorem isLoopbackAuthority_iff :
    isLoopbackAuthority s = true ↔ LoopbackHost (hostPart (trim s)) := List.contains_iff_mem

theorem Authority.loopbackHost (h : Authority s) : LoopbackHost (hostPart s) := by
  obtain ⟨host, tail, rfl, hhost, htail⟩ := h
  rw [hostPart_append hhost htail.discarded]
  exact hhost

theorem JunkTail.loopbackHost (h : JunkTail s) : LoopbackHost (hostPart s) := by
  obtain ⟨host, tail, rfl, hhost, htail, -⟩ := h
  rw [hostPart_append hhost htail]
  exact hhost

/-- What is let in is either an authority or has junk after the host. -/
theorem loopbackHost_iff : LoopbackHost (hostPart s) ↔ Authority s ∨ JunkTail s := by
  constructor
  · intro hhost
    obtain ⟨tail, hs, htail⟩ := exists_discarded s
    by_cases hport : PortSuffix tail
    · exact .inl ⟨_, tail, hs, hhost, hport⟩
    · exact .inr ⟨_, tail, hs, hhost, htail, hport⟩
  · rintro (h | h)
    · exact h.loopbackHost
    · exact h.loopbackHost

/-- It is not both: the host is found in one way. -/
theorem JunkTail.not_authority (h : JunkTail s) : ¬Authority s := by
  obtain ⟨host, tail, rfl, hhost, htail, hport⟩ := h
  rintro ⟨host', tail', heq, hhost', hport'⟩
  have hpart := hostPart_append hhost htail
  rw [heq, hostPart_append hhost' hport'.discarded] at hpart
  rw [hpart] at heq
  exact hport (List.append_cancel_left heq ▸ hport')

/-- The gate for hosts keeps to its grammar exactly where nothing is thrown away. -/
theorem isLoopbackAuthority_iff_authority (s : List Char) :
    (isLoopbackAuthority s = true ↔ Authority (trim s)) ↔ ¬JunkTail (trim s) := by
  rw [isLoopbackAuthority_iff, loopbackHost_iff]
  constructor
  · exact fun h hjunk => hjunk.not_authority (h.mp (.inr hjunk))
  · exact fun h => or_iff_left h

/-- An authority has no white space and no slash in it. -/
theorem Authority.isWord (h : Authority s) : IsWord s ∧ '/' ∉ s := by
  obtain ⟨host, tail, rfl, hhost, htail⟩ := h
  have hall : ∀ l ∈ loopbackHosts, l ≠ [] ∧ '/' ∉ l ∧ l.any isWhitespace = false := by decide
  obtain ⟨hne, hslash, hblank⟩ := hall _ hhost
  have htail' : '/' ∉ tail ∧ ∀ c ∈ tail, isWhitespace c = false := by
    rcases htail with rfl | ⟨port, rfl, -, hdigits⟩
    · exact ⟨List.not_mem_nil, fun c hc => absurd hc List.not_mem_nil⟩
    · refine ⟨fun hmem => ?_, fun c hc => ?_⟩
      · rcases List.mem_cons.mp hmem with hcolon | hmem
        · exact absurd hcolon (by decide)
        · exact absurd (hdigits _ hmem) (by decide)
      · rcases List.mem_cons.mp hc with rfl | hc
        · rfl
        · exact not_isWhitespace_of_isDigit (hdigits c hc)
  refine ⟨⟨fun hnil => ?_, fun c hc => ?_⟩, fun hmem => ?_⟩
  · rw [(List.append_eq_nil_iff.mp hnil).1] at hne
    exact hne rfl
  · rcases List.mem_append.mp hc with hc | hc
    · by_contra hw
      rw [Bool.not_eq_false] at hw
      have hlower := mem_toAsciiLowercase hc
      rw [toLower_of_isWhitespace hw] at hlower
      exact List.any_eq_false.mp hblank c hlower hw
    · exact htail'.2 c hc
  · rcases List.mem_append.mp hmem with hmem | hmem
    · exact hslash (mem_toAsciiLowercase hmem)
    · exact htail'.1 hmem

/-- A text begins with one scheme at most. -/
theorem eq_of_schemes {scheme scheme' a a' : List Char} (h : scheme ∈ schemes)
    (h' : scheme' ∈ schemes) (heq : scheme ++ a = scheme' ++ a') : scheme = scheme' ∧ a = a' := by
  have hsame : scheme = scheme' := by
    have hfifth := congrArg (fun l => l[4]?) heq
    have hall : ∀ l ∈ schemes, ∀ l' ∈ schemes, l[4]? = l'[4]? → l = l' := by decide
    have hlong : ∀ l ∈ schemes, 4 < l.length := by decide
    simp only [List.getElem?_append_left (hlong _ h), List.getElem?_append_left (hlong _ h')]
      at hfifth
    exact hall _ h _ h' hfifth
  refine ⟨hsame, ?_⟩
  rw [hsame] at heq
  exact List.append_cancel_left heq

/-- An origin that is let in: its scheme and its authority. -/
theorem isLoopbackOrigin_iff :
    isLoopbackOrigin s = true ↔ ∃ scheme ∈ schemes, ∃ authority, s = scheme ++ authority ∧
      '/' ∉ authority ∧ isLoopbackAuthority authority = true := by
  have hhttp : "http://".toList ∈ schemes := List.mem_cons_self
  have hhttps : "https://".toList ∈ schemes := List.mem_cons_of_mem _ List.mem_cons_self
  have hstrip : ∀ authority,
      (stripPrefix "http://".toList s).or (stripPrefix "https://".toList s) = some authority ↔
        ∃ scheme ∈ schemes, s = scheme ++ authority := by
    intro authority
    constructor
    · intro h
      rcases Option.or_eq_some_iff.mp h with h | ⟨-, h⟩
      · exact ⟨_, hhttp, stripPrefix_eq_some.mp h⟩
      · exact ⟨_, hhttps, stripPrefix_eq_some.mp h⟩
    · rintro ⟨scheme, hscheme, rfl⟩
      rcases List.mem_cons.mp hscheme with rfl | hscheme'
      · rw [stripPrefix_append, Option.some_or]
      · rw [List.mem_singleton.mp hscheme', stripPrefix_append]
        cases h : stripPrefix "http://".toList ("https://".toList ++ authority) with
        | none => rfl
        | some rest =>
            exact absurd (eq_of_schemes hhttps hhttp (stripPrefix_eq_some.mp h)).1 (by decide)
  have hempty : isLoopbackAuthority [] = false := rfl
  rw [isLoopbackOrigin]
  constructor
  · intro h
    split at h
    · next authority hsome =>
        obtain ⟨scheme, hscheme, hs⟩ := (hstrip authority).mp hsome
        split at h
        · cases h
        · next hcheck =>
            rw [Bool.or_eq_true, not_or, List.contains_iff_mem] at hcheck
            exact ⟨scheme, hscheme, authority, hs, hcheck.2, h⟩
    · cases h
  · rintro ⟨scheme, hscheme, authority, hs, hslash, hgate⟩
    have hcheck : ¬(authority.isEmpty || authority.contains '/') = true := by
      rw [Bool.or_eq_true, not_or, List.contains_iff_mem, List.isEmpty_iff]
      refine ⟨?_, hslash⟩
      rintro rfl
      rw [hempty] at hgate
      cases hgate
    rw [(hstrip authority).mpr ⟨scheme, hscheme, hs⟩]
    simp only [if_neg hcheck, hgate]

theorem isLoopbackOrigin_iff_origin (s : List Char) :
    (isLoopbackOrigin s = true ↔ Origin s) ↔ ¬JunkOrigin s := by
  rw [isLoopbackOrigin_iff]
  have hin : ∀ {a}, Authority a → '/' ∉ a ∧ isLoopbackAuthority a = true := by
    intro a ha
    refine ⟨ha.isWord.2, isLoopbackAuthority_iff.mpr ?_⟩
    rw [ha.isWord.1.trim]
    exact ha.loopbackHost
  constructor
  · rintro h ⟨scheme, hscheme, a, hs, hslash, hjunk⟩
    have hgate : isLoopbackAuthority a = true := by
      rw [isLoopbackAuthority_iff, loopbackHost_iff]
      exact hjunk.elim .inr fun hblank => .inl hblank.1
    obtain ⟨scheme', hscheme', a', hs', ha'⟩ := h.mp ⟨scheme, hscheme, a, hs, hslash, hgate⟩
    obtain ⟨-, rfl⟩ := eq_of_schemes hscheme hscheme' (hs.symm.trans hs')
    rw [ha'.isWord.1.trim] at hjunk
    exact hjunk.elim (fun hjunk => hjunk.not_authority ha') fun hblank => hblank.2 rfl
  · intro h
    constructor
    · rintro ⟨scheme, hscheme, a, hs, hslash, hgate⟩
      refine ⟨scheme, hscheme, a, hs, ?_⟩
      by_contra hnot
      refine h ⟨scheme, hscheme, a, hs, hslash, ?_⟩
      rcases loopbackHost_iff.mp (isLoopbackAuthority_iff.mp hgate) with ha | hjunk
      · refine .inr ⟨ha, fun htrim => hnot ?_⟩
        rwa [htrim] at ha
      · exact .inl hjunk
    · rintro ⟨scheme, hscheme, a, hs, ha⟩
      exact ⟨scheme, hscheme, a, hs, hin ha⟩

/-- Each gate keeps to its grammar exactly for the texts without junk after the host, and without
white space in an origin. -/
theorem gates_iff (s : List Char) :
    ((isLoopbackOrigin s = true ↔ Origin s) ↔ ¬JunkOrigin s) ∧
      ((isLoopbackAuthority s = true ↔ Authority (trim s)) ↔ ¬JunkTail (trim s)) :=
  ⟨isLoopbackOrigin_iff_origin s, isLoopbackAuthority_iff_authority s⟩

/-- An origin with a host that only begins like a loopback address. -/
theorem not_gates_bracket :
    isLoopbackOrigin "http://[::1].evil.example".toList = true ∧
      ¬Origin "http://[::1].evil.example".toList := by
  refine ⟨by decide, ?_⟩
  rintro ⟨scheme, hscheme, a, hs, ha⟩
  have hhttp : "http://".toList ∈ schemes := List.mem_cons_self
  have hsplit : "http://[::1].evil.example".toList =
      "http://".toList ++ "[::1].evil.example".toList := rfl
  obtain ⟨-, rfl⟩ := eq_of_schemes hhttp hscheme (hsplit.symm.trans hs)
  have hjunk : JunkTail "[::1].evil.example".toList := by
    refine ⟨"[::1]".toList, ".evil.example".toList, rfl, ?_, .inr (.inl rfl), ?_⟩
    · exact List.mem_of_elem_eq_true (by decide)
    · rintro (hnil | ⟨port, hport, -⟩)
      · cases hnil
      · cases hport
  exact hjunk.not_authority ha

end Gate

end Auth

end Serialcap

end Paniolo
