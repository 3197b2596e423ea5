import Paniolo.Hdmicap.RfbServe.Stream
import Paniolo.Library.Lines

/-!
# The inbound ceiling

The session waits for input only when no complete message is in its buffer, and
`fill` closes it when the buffer grows past `MAX_INBOUND`. The ceiling is twice
the largest message of the WebSocket, which is also the most text a cut may
have; the header of the cut text is not counted in.
-/

namespace Paniolo

namespace Hdmicap

namespace RfbServe

open Framing (Piece Stable exhaust)

/-- Ceiling on bytes received but not yet parsed. -/
def MAX_INBOUND : Nat := 2 * 1048576

/-- What the server has set as the `max_message_size` of the WebSocket. -/
def maxMessageSize : Nat := 1048576

namespace Close

def normal : Close := ⟨1000, ""⟩

def tooMuch : Close := protocol "client sent too much"

end Close

/-- What `socket.recv()` gives. -/
inductive Received where
  | closed
  | binary (b : List UInt8)
  | text
  | other

/-- The buffer after one message of the socket. -/
def fill (buf : List UInt8) : Received → Except Close (List UInt8)
  | .closed => .error Close.normal
  | .binary b =>
      if (buf ++ b).length > MAX_INBOUND then .error Close.tooMuch else .ok (buf ++ b)
  | .text => .error (Close.protocol "RFB is binary")
  | .other => .ok buf

/-- The messages that are handled, and how the session closed or what is in the buffer.
After `other`, `fill` waits for the next message; there is nothing to parse then. -/
def runSession (buf : List UInt8) : List Received → List Msg × Except Close (List UInt8)
  | [] => exhaust parse buf
  | r :: rs =>
      match (exhaust parse buf).2 with
      | .error e => ((exhaust parse buf).1, .error e)
      | .ok rest =>
          match fill rest r with
          | .error e => ((exhaust parse buf).1, .error e)
          | .ok buf' => ((exhaust parse buf).1 ++ (runSession buf' rs).1, (runSession buf' rs).2)

/-- A cut text is the message that may be long. -/
def cutTextType : UInt8 := 6

/-- The condition on a stream of messages and the way it is cut into messages of the WebSocket:
when one of these begins inside a cut text more than 2^20 bytes after its beginning, and every
message before is supported, then both together stay within the ceiling. -/
def Fits (msgs chunks : List (List UInt8)) : Prop :=
  ∀ pre c post before m after part, chunks = pre ++ c :: post → msgs = before ++ m :: after →
    pre.flatten = before.flatten ++ part → part <+: m → part ≠ m →
    (∀ b ∈ before, ∃ msg, readMessage b = .ok msg) → m.getD 0 0 = cutTextType →
    maxMessageSize < part.length → part.length + c.length ≤ MAX_INBOUND

/-! ### Messages -/

/-- A message of a fixed length is short. -/
theorem length_le_of_fixed {m : List UInt8} {n ty : Nat} (hty : ty ≠ 6)
    (hlen : (Except.ok (some n) : Except Close (Option Nat)) = .ok (some m.length))
    (hn : n ≤ 4 + 4 * 1024) :
    m.length ≤ if ty = 6 then 8 + 1048576 else 4 + 4 * 1024 := by
  rw [if_neg hty, ← Option.some.inj (Except.ok.inj hlen)]
  exact hn

theorem length_le_of_framed {m : List UInt8} (hm : Framed m) :
    m.length ≤ if m.getD 0 0 = cutTextType then 8 + 1048576 else 4 + 4 * 1024 := by
  obtain ⟨-, hlen⟩ := hm
  rw [messageLen] at hlen
  have hty : m.getD 0 0 = cutTextType ↔ (m.getD 0 0).toNat = 6 := by
    rw [← UInt8.toNat_inj]
    rfl
  simp only [hty]
  split at hlen
  · next h0 => exact length_le_of_fixed (by omega) hlen (by decide)
  · next h2 =>
      rw [if_neg (by omega)]
      split at hlen
      · cases hlen
      · split at hlen
        · cases hlen
        · have h := Option.some.inj (Except.ok.inj hlen)
          omega
  · next h3 => exact length_le_of_fixed (by omega) hlen (by decide)
  · next h4 => exact length_le_of_fixed (by omega) hlen (by decide)
  · next h5 => exact length_le_of_fixed (by omega) hlen (by decide)
  · next h6 =>
      rw [if_pos h6]
      split at hlen
      · cases hlen
      · dsimp only at hlen
        split at hlen
        · cases hlen
        · have h := Option.some.inj (Except.ok.inj hlen)
          omega
  · cases hlen

/-- The beginning of a message is no message. -/
theorem parse_part {m part : List UInt8} (hm : Framed m) (hpart : part <+: m) (hne : part ≠ m) :
    parse part = .ok none := by
  obtain ⟨more, rfl⟩ := hpart
  cases front part with
  | incomplete h => exact h
  | malformed e hbuf h =>
      have hheader : headerLen (part.getD 0 0).toNat ≤ part.length := by
        refine Nat.le_of_not_lt fun hlt => ?_
        rw [(messageLen_eq_none_iff hbuf).mpr hlt] at h
        cases h
      have hlen := hm.2
      rw [messageLen_append hbuf hheader, h] at hlen
      cases hlen
  | framed m' rest hm' h =>
      subst h
      have hlen := hm.2
      rw [List.append_assoc, hm'.messageLen_append] at hlen
      have heq := Option.some.inj (Except.ok.inj hlen)
      simp only [List.length_append] at heq
      have hmore : more = [] := List.length_eq_zero_iff.mp (by omega)
      rw [hmore, List.append_nil] at hne
      exact absurd rfl hne

theorem code_of_readMessage {m : List UInt8} {e : Close} (h : readMessage m = .error e) :
    e.code = 1003 := by
  rw [readMessage] at h
  split at h
  · split at h
    · cases h
    · cases h
      rfl
  all_goals cases h

/-- What is left of a stream of messages that ends inside one: its beginning, or the error of a
message before. -/
theorem exhaust_stream {before : List (List UInt8)} {part : List UInt8}
    (hbefore : ∀ b ∈ before, Framed b) (hpart : parse part = .ok none) :
    ((∀ b ∈ before, ∃ msg, readMessage b = .ok msg) ∧
        (exhaust parse (before.flatten ++ part)).2 = .ok part) ∨
      ∃ b ∈ before, ∃ e, readMessage b = .error e ∧
        (exhaust parse (before.flatten ++ part)).2 = .error e := by
  induction before with
  | nil => exact .inl ⟨nofun, by rw [List.flatten_nil, List.nil_append, Framing.exhaust_none hpart]⟩
  | cons b before ih =>
      obtain ⟨hb, hrest⟩ := List.forall_mem_cons.mp hbefore
      rw [List.flatten_cons, List.append_assoc]
      cases hread : readMessage b with
      | error e =>
          refine .inr ⟨b, List.mem_cons_self, e, hread, ?_⟩
          rw [Framing.exhaust_error (e := e) (by rw [hb.parse_eq, hread]; rfl)]
      | ok msg =>
          rw [stable_parse.exhaust_message (hb.piece hread)]
          rcases ih hrest with ⟨hreads, hleft⟩ | ⟨b', hb', herror⟩
          · exact .inl ⟨List.forall_mem_cons.mpr ⟨⟨msg, hread⟩, hreads⟩, hleft⟩
          · exact .inr ⟨b', List.mem_cons_of_mem b hb', herror⟩

/-- Where a prefix of a stream of messages ends. -/
theorem exists_cut {msgs : List (List UInt8)} (hm : ∀ m ∈ msgs, Framed m) {p : List UInt8}
    (hp : p <+: msgs.flatten) :
    ∃ before part after, msgs = before ++ after ∧ p = before.flatten ++ part ∧
      (part = [] ∨ ∃ m rest, after = m :: rest ∧ part <+: m ∧ part ≠ m) := by
  induction msgs generalizing p with
  | nil => exact ⟨[], p, [], rfl, rfl, .inl (List.prefix_nil.mp hp)⟩
  | cons m msgs ih =>
      obtain ⟨-, hrest⟩ := List.forall_mem_cons.mp hm
      rw [List.flatten_cons] at hp
      rcases prefix_append_cases hp with h | ⟨q, -, hq, rfl⟩
      · by_cases hpm : p = m
        · exact ⟨[m], [], msgs, rfl, by rw [hpm]; simp, .inl rfl⟩
        · exact ⟨[], p, m :: msgs, rfl, rfl, .inr ⟨m, msgs, rfl, h, hpm⟩⟩
      · obtain ⟨before, part, after, rfl, rfl, hpart⟩ := ih hrest hq
        exact ⟨m :: before, part, after, rfl, by rw [List.flatten_cons, List.append_assoc], hpart⟩

/-- Reading a prefix of a stream of messages. -/
theorem exhaust_prefix {msgs : List (List UInt8)} (hm : ∀ m ∈ msgs, Framed m) {p : List UInt8}
    (hp : p <+: msgs.flatten) :
    (∃ before part after, msgs = before ++ after ∧ p = before.flatten ++ part ∧
        (part = [] ∨ ∃ m rest, after = m :: rest ∧ part <+: m ∧ part ≠ m) ∧
        (∀ b ∈ before, ∃ msg, readMessage b = .ok msg) ∧ (exhaust parse p).2 = .ok part) ∨
      ∃ b e, readMessage b = .error e ∧ (exhaust parse p).2 = .error e := by
  obtain ⟨before, part, after, rfl, rfl, hpart⟩ := exists_cut hm hp
  have hidle : parse part = .ok none := by
    rcases hpart with rfl | ⟨m, rest, rfl, hbegins, hne⟩
    · exact stable_parse.nil
    · exact parse_part (hm m (List.mem_append_right before List.mem_cons_self)) hbegins hne
  rcases exhaust_stream (fun b hb => hm b (List.mem_append_left after hb)) hidle with
    ⟨hreads, hleft⟩ | ⟨b, -, e, he, herror⟩
  · exact .inl ⟨before, part, after, rfl, rfl, hpart, hreads, hleft⟩
  · exact .inr ⟨b, e, he, herror⟩

/-! ### Sessions -/

theorem runSession_append_error {buf : List UInt8} {rs : List Received} {e : Close}
    (h : (runSession buf rs).2 = .error e) (ss : List Received) :
    (runSession buf (rs ++ ss)).2 = .error e := by
  induction rs generalizing buf with
  | nil =>
      rw [runSession] at h
      cases ss with
      | nil => exact h
      | cons s ss => rw [List.nil_append, runSession, h]
  | cons r rs ih =>
      rw [List.cons_append, runSession]
      rw [runSession] at h
      cases hx : (exhaust parse buf).2 with
      | error e' =>
          rw [hx] at h
          exact h
      | ok rest =>
          rw [hx] at h
          cases hf : fill rest r with
          | error e' =>
              simp only [hf] at h ⊢
              exact h
          | ok buf' =>
              simp only [hf] at h ⊢
              exact ih h

theorem runSession_append_ok {buf rest : List UInt8} {rs : List Received}
    (h : (runSession buf rs).2 = .ok rest) (r : Received) (ss : List Received) :
    (runSession buf (rs ++ r :: ss)).2 = (runSession rest (r :: ss)).2 := by
  induction rs generalizing buf with
  | nil =>
      rw [runSession] at h
      rw [List.nil_append, runSession, runSession, h,
        Framing.exhaust_none (stable_parse.exhaust_left h)]
      cases hf : fill rest r with
      | error e => simp only [hf]
      | ok buf' => simp only [hf]
  | cons r' rs ih =>
      rw [runSession] at h
      rw [List.cons_append, runSession]
      cases hx : (exhaust parse buf).2 with
      | error e =>
          rw [hx] at h
          cases h
      | ok left =>
          rw [hx] at h
          cases hf : fill left r' with
          | error e =>
              simp only [hf] at h
              cases h
          | ok buf' =>
              simp only [hf] at h ⊢
              exact ih h

/-- Below the ceiling a session reads the messages of the stream. -/
theorem runSession_binary (buf : List UInt8) (chunks : List (List UInt8)) :
    (runSession buf (chunks.map .binary)).2 = .error Close.tooMuch ∨
      runSession buf (chunks.map .binary) = exhaust parse (buf ++ chunks.flatten) := by
  induction chunks generalizing buf with
  | nil =>
      right
      rw [List.flatten_nil, List.append_nil]
      rfl
  | cons c chunks ih =>
      rw [List.map_cons, runSession, List.flatten_cons, ← List.append_assoc]
      cases hx : (exhaust parse buf).2 with
      | error e =>
          right
          rw [List.append_assoc, stable_parse.exhaust_append_error hx]
          exact Prod.ext rfl hx.symm
      | ok rest =>
          simp only
          rw [List.append_assoc, stable_parse.exhaust_append_ok hx, ← List.append_assoc]
          by_cases hlen : (rest ++ c).length > MAX_INBOUND
          · left
            rw [fill, if_pos hlen]
          · rw [fill, if_neg hlen]
            rcases ih (rest ++ c) with h | h
            · exact .inl h
            · right
              simp only [h]

/-- A message of the socket that is one too many closes the session. -/
theorem runSession_tooMuch {pre : List (List UInt8)} {c part : List UInt8}
    (hleft : (exhaust parse pre.flatten).2 = .ok part) (hlen : MAX_INBOUND < part.length + c.length)
    (post : List (List UInt8)) :
    (runSession [] ((pre ++ c :: post).map .binary)).2 = .error Close.tooMuch := by
  rw [List.map_append, List.map_cons]
  rcases runSession_binary [] pre with hclosed | hrun
  · exact runSession_append_error hclosed _
  · have hrest : (runSession [] (pre.map .binary)).2 = .ok part := by
      rw [hrun]
      exact hleft
    rw [runSession_append_ok hrest, runSession, Framing.exhaust_none (stable_parse.exhaust_left hleft)]
    simp only
    rw [fill, if_pos (by rw [List.length_append]; exact hlen)]

/-- Only such a message does. -/
theorem exists_of_tooMuch {buf : List UInt8} {chunks : List (List UInt8)}
    (h : (runSession buf (chunks.map .binary)).2 = .error Close.tooMuch) :
    (∃ pre post, chunks = pre ++ post ∧
        (exhaust parse (buf ++ pre.flatten)).2 = .error Close.tooMuch) ∨
      ∃ pre c post part, chunks = pre ++ c :: post ∧
        (exhaust parse (buf ++ pre.flatten)).2 = .ok part ∧
        MAX_INBOUND < part.length + c.length := by
  induction chunks generalizing buf with
  | nil =>
      left
      refine ⟨[], [], rfl, ?_⟩
      rw [List.flatten_nil, List.append_nil]
      exact h
  | cons c chunks ih =>
      rw [List.map_cons, runSession] at h
      cases hx : (exhaust parse buf).2 with
      | error e =>
          rw [hx] at h
          left
          refine ⟨[], c :: chunks, rfl, ?_⟩
          rw [List.flatten_nil, List.append_nil, hx]
          exact h
      | ok rest =>
          rw [hx] at h
          simp only at h
          by_cases hlen : (rest ++ c).length > MAX_INBOUND
          · right
            refine ⟨[], c, chunks, rest, rfl, ?_, ?_⟩
            · rw [List.flatten_nil, List.append_nil, hx]
            · rw [← List.length_append]
              exact hlen
          · rw [fill, if_neg hlen] at h
            have hmove : ∀ pre : List (List UInt8),
                (exhaust parse (buf ++ (c :: pre).flatten)).2 =
                  (exhaust parse (rest ++ c ++ pre.flatten)).2 := by
              intro pre
              rw [List.flatten_cons, stable_parse.exhaust_append_ok hx, List.append_assoc]
            rcases ih h with ⟨pre, post, rfl, hpre⟩ | ⟨pre, c', post, part, rfl, hpre, hlong⟩
            · exact .inl ⟨c :: pre, post, rfl, (hmove pre).trans hpre⟩
            · exact .inr ⟨c :: pre, c', post, part, rfl, (hmove pre).trans hpre, hlong⟩

/-- A session that gets a stream of messages is closed for its volume exactly when the stream and
its cuts do not fit. -/
theorem not_tooMuch_iff_fits (msgs chunks : List (List UInt8)) (hm : ∀ m ∈ msgs, Framed m)
    (hc : ∀ c ∈ chunks, c.length ≤ maxMessageSize) (hs : chunks.flatten <+: msgs.flatten) :
    (runSession [] (chunks.map .binary)).2 ≠ .error Close.tooMuch ↔ Fits msgs chunks := by
  constructor
  · intro hopen pre c post before m after part hchunks hmsgs hpre hpart hne hreads _ _
    refine Nat.le_of_not_lt fun hlong => hopen ?_
    subst hmsgs
    have hidle : parse part = .ok none :=
      parse_part (hm m (List.mem_append_right before List.mem_cons_self)) hpart hne
    have hleft : (exhaust parse pre.flatten).2 = .ok part := by
      rw [hpre]
      rcases exhaust_stream (fun b hb => hm b (List.mem_append_left _ hb)) hidle with h | h
      · exact h.2
      · obtain ⟨b, hb, e, he, -⟩ := h
        obtain ⟨msg, hmsg⟩ := hreads b hb
        rw [he] at hmsg
        cases hmsg
    rw [hchunks]
    exact runSession_tooMuch hleft hlong post
  · intro hfits hclosed
    have hbegins : ∀ pre post, chunks = pre ++ post → pre.flatten <+: msgs.flatten := by
      intro pre post hchunks
      refine List.IsPrefix.trans ?_ hs
      rw [hchunks, List.flatten_append]
      exact List.prefix_append _ _
    have hcode : ∀ b e, readMessage b = .error e → e ≠ Close.tooMuch := by
      intro b e he heq
      have h := code_of_readMessage he
      rw [heq] at h
      cases h
    rcases exists_of_tooMuch hclosed with ⟨pre, post, hchunks, hpre⟩ |
      ⟨pre, c, post, part, hchunks, hpre, hlong⟩
    · rw [List.nil_append] at hpre
      rcases exhaust_prefix hm (hbegins pre post hchunks) with
        ⟨_, part, _, -, -, -, -, hleft⟩ | ⟨b, e, he, herror⟩
      · rw [hleft] at hpre
        cases hpre
      · rw [herror] at hpre
        exact hcode b e he (Except.error.inj hpre)
    · rw [List.nil_append] at hpre
      have hmem : c ∈ chunks := hchunks ▸ List.mem_append_right pre List.mem_cons_self
      have hcmax : c.length ≤ 1048576 := hc c hmem
      simp only [MAX_INBOUND] at hlong
      rcases exhaust_prefix hm (hbegins pre (c :: post) hchunks) with
        ⟨before, part', after, hmsgs, hflat, hpart, hreads, hleft⟩ | ⟨b, e, he, herror⟩
      · rw [hleft] at hpre
        cases hpre
        rcases hpart with rfl | ⟨m, rest, rfl, hm', hne⟩
        · rw [List.length_nil] at hlong
          omega
        · have hmem' : m ∈ msgs := hmsgs ▸ List.mem_append_right before List.mem_cons_self
          have hbound := length_le_of_framed (hm m hmem')
          have hle : part.length ≤ m.length := hm'.length_le
          split at hbound
          · next hty =>
              have h := hfits pre c post before m rest part hchunks hmsgs hflat hm' hne hreads hty
                (by rw [maxMessageSize]; omega)
              simp only [MAX_INBOUND] at h
              omega
          · omega
      · rw [herror] at hpre
        cases hpre

/-- A short cut text in two messages of the socket. -/
theorem fits_shortText :
    (runSession [] ([[6, 0, 0], [0, 0, 0, 0, 1, 65]].map .binary)).2 ≠ .error Close.tooMuch ∧
      Fits [[6, 0, 0, 0, 0, 0, 0, 1, 65]] [[6, 0, 0], [0, 0, 0, 0, 1, 65]] := by
  have hopen : (runSession [] ([[6, 0, 0], [0, 0, 0, 0, 1, 65]].map .binary)).2 ≠
      .error Close.tooMuch := nofun
  refine ⟨hopen, (not_tooMuch_iff_fits [[6, 0, 0, 0, 0, 0, 0, 1, 65]]
    [[6, 0, 0], [0, 0, 0, 0, 1, 65]] ?_ ?_ ?_).mp hopen⟩
  · intro m hm
    cases List.mem_singleton.mp hm
    exact ⟨List.cons_ne_nil _ _, by simp [messageLen, ofBe32]⟩
  · decide
  · exact ⟨[], rfl⟩

/-- A cut text of the greatest length. -/
def longText : List UInt8 := [6, 0, 0, 0, 0, 16, 0, 0] ++ List.replicate 1048576 0

theorem length_longText : longText.length = 1048584 := by
  rw [longText, List.length_append, List.length_replicate]
  rfl

theorem framed_longText : Framed longText := by
  have hheader : messageLen [6, 0, 0, 0, 0, 16, 0, 0] = .ok (some 1048584) := by
    simp [messageLen, ofBe32]
  refine ⟨List.cons_ne_nil _ _, ?_⟩
  rw [length_longText, longText, messageLen_append (List.cons_ne_nil _ _) (by decide), hheader]

/-- A list twice, cut in four pieces. -/
def cutTwice (l : List UInt8) (a k b : Nat) : List (List UInt8) :=
  [l.take a, (l.drop a).take k, l.drop (a + k) ++ l.take b, l.drop b]

theorem cutTwice_eq (l : List UInt8) (a k b : Nat) :
    cutTwice l a k b = [l.take a, (l.drop a).take k] ++ (l.drop (a + k) ++ l.take b) :: [l.drop b] :=
  rfl

theorem flatten_cutTwice (l : List UInt8) (a k b : Nat) : (cutTwice l a k b).flatten = l ++ l := by
  simp only [cutTwice, List.flatten_cons, List.flatten_nil, List.append_nil, List.append_assoc,
    List.take_append_drop]
  rw [← List.drop_drop, ← List.append_assoc (List.take k (List.drop a l)), List.take_append_drop,
    ← List.append_assoc, List.take_append_drop]

/-- A conforming client is closed: two long texts, cut so that all but one byte of the first is
there when a message of the greatest length comes. -/
theorem tooMuch_longText :
    ¬∀ msgs chunks : List (List UInt8), (∀ m ∈ msgs, Framed m) →
      (∀ c ∈ chunks, c.length ≤ maxMessageSize) → chunks.flatten = msgs.flatten →
      (runSession [] (chunks.map .binary)).2 ≠ .error Close.tooMuch := by
  intro h
  have hlen := length_longText
  have hpart : parse (longText.take 1048583) = .ok none := by
    refine parse_part framed_longText (List.take_prefix _ _) fun heq => ?_
    have htake := congrArg List.length heq
    rw [List.length_take, hlen] at htake
    omega
  refine h [longText, longText] (cutTwice longText 1048576 7 1048575) ?_ ?_ ?_ ?_
  · intro m hm
    rw [List.mem_pair, or_self] at hm
    exact hm ▸ framed_longText
  · simp only [cutTwice, List.forall_mem_cons, List.length_append, List.length_take,
      List.length_drop, hlen, maxMessageSize]
    exact ⟨by omega, by omega, by omega, by omega, nofun⟩
  · rw [flatten_cutTwice]
    simp
  · have hpre : ([longText.take 1048576, (longText.drop 1048576).take 7] : List (List UInt8)).flatten =
        longText.take 1048583 := by
      simp only [List.flatten_cons, List.flatten_nil, List.append_nil]
      rw [← List.take_add]
    have hleft : (exhaust parse ([longText.take 1048576,
        (longText.drop 1048576).take 7] : List (List UInt8)).flatten).2 =
          .ok (longText.take 1048583) := by
      rw [hpre, Framing.exhaust_none hpart]
    rw [cutTwice_eq]
    refine runSession_tooMuch hleft ?_ [longText.drop 1048575]
    simp only [List.length_append, List.length_take, List.length_drop, hlen, MAX_INBOUND]
    omega

end RfbServe

end Hdmicap

end Paniolo
