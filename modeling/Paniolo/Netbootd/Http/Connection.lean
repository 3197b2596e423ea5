import Paniolo.Netbootd.Http
import Paniolo.Library.Output

/-!
# HTTP connections

`handle_conn` answers the requests of one connection in order; `serve_file` and
`write_status` write the responses. The bodies are framed by the length that
the head announces, so a connection on which a body could not be sent in full
must not be used any more.

What the server meets on the way is data of a request: how reading the head and
draining the body end, the file tree the target is resolved in, the size of the
opened file, and what each read of it gives.
-/

namespace Paniolo

namespace Netbootd

namespace Http

/-- Streaming copy buffer for GET bodies. -/
def COPY_CHUNK : Nat := 64 * 1024

/-- `ConnConfig`, without the time limit. -/
structure ConnConfig where
  root : List Name
  ctype : List Char

/-- One request, with everything the server meets in serving it. -/
structure Request where
  /-- `read_head` under its time limit; `none` when the peer has closed. -/
  head : Except String (Option Head)
  /-- `drain_body` under its time limit: whether the whole declared body came. -/
  drained : Except String Bool
  tree : FileTree
  opens : Bool
  /-- `file.metadata()?.len()`. -/
  size : Except String Nat
  /-- The reads of the file, one after the other; a read gets at most as much as it asks for. -/
  reads : Nat → Except String (List UInt8)
  flush : Except String Unit

/-- The head of a response. -/
structure ResponseHead where
  code : Nat
  reason : String
  contentLength : Nat
  contentType : List Char
  keepAlive : Bool
deriving DecidableEq

namespace ResponseHead

def text (h : ResponseHead) : List Char :=
  s!"HTTP/1.1 {h.code} {h.reason}\r\nContent-Length: {h.contentLength}\r\nContent-Type: ".toList ++
    h.contentType ++ "\r\nConnection: ".toList ++
      (if h.keepAlive then "keep-alive" else "close").toList ++ "\r\n\r\n".toList

def bytes (h : ResponseHead) : List UInt8 := Utf8.encode h.text

end ResponseHead

def statusBody (code : Nat) (reason : String) : List UInt8 := Utf8.bytes s!"{code} {reason}\n"

/-- The head that `write_status` writes. -/
def statusHead (code : Nat) (reason : String) (keepAlive : Bool) : ResponseHead :=
  ⟨code, reason, (statusBody code reason).length, "text/plain".toList, keepAlive⟩

/-- The head that `serve_file` writes. -/
def fileHead (len : Nat) (ctype : List Char) (keepAlive : Bool) : ResponseHead :=
  ⟨200, "OK", len, ctype, keepAlive⟩

def MAX_LOG_CHARS : Nat := 128

/-- `served::loggable`: a text of the peer, made safe for the log. -/
def loggable (s : List Char) : List Char :=
  ((s.take MAX_LOG_CHARS).map fun c => if '!' ≤ c ∧ c ≤ '~' ∨ c = ' ' then c else '?') ++
    if MAX_LOG_CHARS < s.length then ['…'] else []

abbrev Conn := Output String

def writeBytes (b : List UInt8) : Conn Unit := Output.writeAll "broken pipe" b

/-- The body of a response; a response to HEAD has none. -/
def unlessHead (headOnly : Bool) (body : Conn Unit) : Conn Unit :=
  if headOnly then pure () else body

/-- `write_status`. -/
def writeStatus (req : Request) (code : Nat) (reason : String) (keepAlive headOnly : Bool) :
    Conn Unit := do
  writeBytes (statusHead code reason keepAlive).bytes
  unlessHead headOnly (writeBytes (statusBody code reason))
  Output.lift req.flush

def shrank (target : List Char) (remaining len : Nat) : String :=
  s!"{String.ofList target}: file shrank mid-transfer ({remaining} of {len} bytes unsent); " ++
    "dropping the connection rather than mis-frame it"

/-- The copy loop of `serve_file`: `i` reads are done and `remaining` of the `len` bytes are to be
sent. Every round sends at least one, so their number is enough fuel. -/
def copyBody (req : Request) (target : List Char) (len : Nat) : Nat → Nat → Nat → Conn Unit
  | 0, _, _ => pure ()
  | fuel + 1, i, remaining =>
      if remaining = 0 then pure ()
      else do
        let got ← Output.lift (req.reads i)
        let buf := got.take (min remaining COPY_CHUNK)
        if buf = [] then Output.lift (.error (shrank target remaining len))
        else do
          writeBytes buf
          copyBody req target len fuel (i + 1) (remaining - buf.length)

/-- `serve_file`. -/
def serveFile (req : Request) (ctype : List Char) (keepAlive headOnly : Bool)
    (target : List Char) : Conn Unit :=
  if req.opens then do
    let len ← Output.lift req.size
    writeBytes (fileHead len ctype keepAlive).bytes
    unlessHead headOnly (copyBody req target len len 0 len)
    Output.lift req.flush
  else writeStatus req 404 "Not Found" keepAlive headOnly

def isHead (head : Head) : Bool := Text.eqIgnoreAsciiCase head.method "HEAD".toList

/-- The response to a request whose head is there. -/
def respond (cfg : ConnConfig) (req : Request) (head : Head) : Conn Unit :=
  match answer req.tree cfg.root head with
  | .methodNotAllowed => writeStatus req 405 "Method Not Allowed" head.keepAlive (isHead head)
  | .notFound => writeStatus req 404 "Not Found" head.keepAlive (isHead head)
  | .serveFile _ =>
      serveFile req cfg.ctype head.keepAlive (isHead head) (loggable head.target)

/-- `handle_conn`, for the requests that the peer makes. -/
def handleConn (cfg : ConnConfig) : List Request → Conn Unit
  | [] => pure ()
  | req :: reqs => do
      match ← Output.lift req.head with
      | none => pure ()
      | some head =>
          if ← Output.lift req.drained then
            respond cfg req head
            if head.keepAlive then handleConn cfg reqs else pure ()
          else pure ()

/-! ### Responses -/

/-- A complete response: after its head, exactly the announced number of bytes, or none when only
the head was asked for. -/
structure Response where
  head : ResponseHead
  headOnly : Bool
  body : List UInt8
  complete : body.length = if headOnly then 0 else head.contentLength

def Response.bytes (r : Response) : List UInt8 := r.head.bytes ++ r.body

/-- The head that a request is answered with, unless the size of the file cannot be read. -/
def announce (cfg : ConnConfig) (req : Request) (head : Head) : Option ResponseHead :=
  match answer req.tree cfg.root head with
  | .methodNotAllowed => some (statusHead 405 "Method Not Allowed" head.keepAlive)
  | .notFound => some (statusHead 404 "Not Found" head.keepAlive)
  | .serveFile _ =>
      if req.opens then req.size.toOption.map fun len => fileHead len cfg.ctype head.keepAlive
      else some (statusHead 404 "Not Found" head.keepAlive)

/-- The response belongs to the request. -/
def Answers (cfg : ConnConfig) (req : Request) (r : Response) : Prop :=
  ∃ head, req.head = .ok (some head) ∧ req.drained = .ok true ∧
    announce cfg req head = some r.head ∧ r.headOnly = isHead head

/-- Every beginning of a body can be completed. -/
theorem exists_response (h : ResponseHead) (headOnly : Bool) {b : List UInt8}
    (hb : b.length ≤ if headOnly then 0 else h.contentLength) :
    ∃ r : Response, r.head = h ∧ r.headOnly = headOnly ∧ h.bytes ++ b <+: r.bytes := by
  let n := (if headOnly then 0 else h.contentLength) - b.length
  have hlen : (b ++ List.replicate n 0).length = if headOnly then 0 else h.contentLength := by
    rw [List.length_append, List.length_replicate]
    exact Nat.add_sub_cancel' hb
  refine ⟨⟨h, headOnly, b ++ List.replicate n 0, hlen⟩, rfl, rfl, List.replicate n 0, ?_⟩
  exact List.append_assoc _ _ _

theorem writes_unlessHead {headOnly : Bool} {n : Nat} {body : Conn Unit}
    (hbody : body.Writes (fun _ b => b.length = n) fun b => b.length ≤ n) :
    (unlessHead headOnly body).Writes (fun _ b => b.length = if headOnly then 0 else n)
      fun b => b.length ≤ if headOnly then 0 else n := by
  cases headOnly with
  | true => exact Output.writes_pure rfl
  | false => exact hbody

/-- The bytes of a response, or of its beginning when the connection fails. -/
theorem writes_response {h : ResponseHead} {headOnly : Bool} {body : Conn Unit}
    {flush : Except String Unit}
    (hbody : body.Writes (fun _ b => b.length = h.contentLength)
      fun b => b.length ≤ h.contentLength) :
    (do writeBytes h.bytes; unlessHead headOnly body; Output.lift flush : Conn Unit).Writes
      (fun _ b => ∃ r : Response, r.head = h ∧ r.headOnly = headOnly ∧ b = r.bytes)
      fun b => ∃ r : Response, r.head = h ∧ r.headOnly = headOnly ∧ b <+: r.bytes := by
  have hhead : (writeBytes h.bytes).Writes (fun _ b => b = h.bytes) fun b => b <+: h.bytes :=
    Output.writes_writeAll rfl fun c hc _ => hc
  refine hhead.bind (fun _ b hb => ?_) (fun b hb => ?_)
  · rw [hb]
    refine (writes_unlessHead hbody).bind (fun _ b hb => ?_) (fun b hb => ?_)
    · refine Output.writes_lift (fun _ _ => ?_) ?_
      · refine ⟨⟨h, headOnly, b, hb⟩, rfl, rfl, ?_⟩
        rw [List.append_nil]
        rfl
      · rw [List.append_nil]
        exact exists_response h headOnly (Nat.le_of_eq hb)
    · exact exists_response h headOnly hb
  · obtain ⟨r, hrh, hro, hbegins⟩ := exists_response h headOnly (b := []) (Nat.zero_le _)
    rw [List.append_nil] at hbegins
    exact ⟨r, hrh, hro, hb.trans hbegins⟩

theorem writes_writeStatus (req : Request) (code : Nat) (reason : String)
    (keepAlive headOnly : Bool) :
    (writeStatus req code reason keepAlive headOnly).Writes
      (fun _ b => ∃ r : Response, r.head = statusHead code reason keepAlive ∧
        r.headOnly = headOnly ∧ b = r.bytes)
      fun b => ∃ r : Response, r.head = statusHead code reason keepAlive ∧
        r.headOnly = headOnly ∧ b <+: r.bytes :=
  writes_response (Output.writes_writeAll rfl fun _ hc _ => hc.length_le)

/-- One chunk after the other, never more than was announced. -/
theorem writes_copyBody (req : Request) (target : List Char) (len fuel i remaining : Nat)
    (hfuel : remaining ≤ fuel) :
    (copyBody req target len fuel i remaining).Writes (fun _ b => b.length = remaining)
      fun b => b.length ≤ remaining := by
  induction fuel generalizing i remaining with
  | zero => exact Output.writes_pure (Nat.le_zero.mp hfuel).symm
  | succ fuel ih =>
      rw [copyBody]
      split
      · next h => exact Output.writes_pure h.symm
      · refine Output.Writes.bind (P := fun _ b => b = []) (Q := (· = [])) ?_ ?_ ?_
        · exact Output.writes_lift (fun _ _ => rfl) rfl
        · intro got _ hnil
          subst hnil
          have hlen : (got.take (min remaining COPY_CHUNK)).length ≤ remaining := by
            rw [List.length_take]
            exact Nat.le_trans (Nat.min_le_left _ _) (Nat.min_le_left _ _)
          simp only [List.nil_append]
          split
          · exact Output.writes_lift nofun (Nat.zero_le _)
          · next hne =>
              have hpos := List.length_pos_iff.mpr hne
              refine Output.Writes.bind (P := fun _ b => b = got.take (min remaining COPY_CHUNK))
                (Q := fun b => b.length ≤ remaining) ?_ ?_ ?_
              · exact Output.writes_writeAll rfl fun c hc _ => Nat.le_trans hc.length_le hlen
              · intro _ b hb
                subst hb
                refine (ih (i + 1) _ (by omega)).mono (fun _ b hb => ?_) (fun b hb => ?_)
                · rw [List.length_append]
                  omega
                · rw [List.length_append]
                  omega
              · exact fun _ h => h
        · intro b hb
          rw [hb]
          exact Nat.zero_le _

theorem writes_serveFile {req : Request} {ctype : List Char} {keepAlive headOnly : Bool}
    {target : List Char} (hopen : req.opens = true) :
    (serveFile req ctype keepAlive headOnly target).Writes
      (fun _ b => ∃ r : Response,
        req.size.toOption.map (fun len => fileHead len ctype keepAlive) = some r.head ∧
          r.headOnly = headOnly ∧ b = r.bytes)
      fun b => b = [] ∨ ∃ r : Response,
        req.size.toOption.map (fun len => fileHead len ctype keepAlive) = some r.head ∧
          r.headOnly = headOnly ∧ b <+: r.bytes := by
  rw [serveFile, if_pos hopen]
  refine Output.Writes.bind (P := fun len b => req.size = .ok len ∧ b = []) (Q := (· = [])) ?_ ?_ ?_
  · exact Output.writes_lift (fun _ h => ⟨h, rfl⟩) rfl
  · rintro len b ⟨hsize, hnil⟩
    rw [hnil]
    have hbody := writes_copyBody req target len len 0 len (Nat.le_refl len)
    refine (writes_response (h := fileHead len ctype keepAlive) hbody).mono ?_ ?_
    · rintro _ b ⟨r, hr, hrest⟩
      exact ⟨r, by rw [hsize, hr]; rfl, hrest⟩
    · rintro b ⟨r, hr, hrest⟩
      exact .inr ⟨r, by rw [hsize, hr]; rfl, hrest⟩
  · exact fun b h => .inl h

theorem writes_respond (cfg : ConnConfig) {req : Request} {head : Head}
    (hhead : req.head = .ok (some head)) (hdrained : req.drained = .ok true) :
    (respond cfg req head).Writes (fun _ b => ∃ r, Answers cfg req r ∧ b = r.bytes)
      fun b => b = [] ∨ ∃ r, Answers cfg req r ∧ b <+: r.bytes := by
  have hstatus : ∀ code reason, announce cfg req head = some (statusHead code reason head.keepAlive) →
      (writeStatus req code reason head.keepAlive (isHead head)).Writes
        (fun _ b => ∃ r, Answers cfg req r ∧ b = r.bytes)
        fun b => b = [] ∨ ∃ r, Answers cfg req r ∧ b <+: r.bytes := by
    intro code reason hannounce
    refine (writes_writeStatus req code reason head.keepAlive (isHead head)).mono ?_ ?_
    · rintro _ b ⟨r, hr, hro, hb⟩
      exact ⟨r, ⟨head, hhead, hdrained, by rw [hannounce, hr], hro⟩, hb⟩
    · rintro b ⟨r, hr, hro, hb⟩
      exact .inr ⟨r, ⟨head, hhead, hdrained, by rw [hannounce, hr], hro⟩, hb⟩
  rw [respond]
  cases hanswer : answer req.tree cfg.root head with
  | methodNotAllowed => exact hstatus 405 _ (by rw [announce, hanswer])
  | notFound => exact hstatus 404 _ (by rw [announce, hanswer])
  | serveFile path =>
      cases hopen : req.opens with
      | false =>
          have hannounce : announce cfg req head = some (statusHead 404 "Not Found" head.keepAlive) := by
            rw [announce, hanswer, hopen]
            rfl
          simp only
          rw [Http.serveFile, hopen, if_neg Bool.false_ne_true]
          exact hstatus 404 _ hannounce
      | true =>
          have hannounce : announce cfg req head =
              req.size.toOption.map fun len => fileHead len cfg.ctype head.keepAlive := by
            rw [announce, hanswer, hopen]
            rfl
          refine (writes_serveFile hopen).mono ?_ ?_
          · rintro _ b ⟨r, hr, hro, hb⟩
            exact ⟨r, ⟨head, hhead, hdrained, hannounce.trans hr, hro⟩, hb⟩
          · rintro b (hb | ⟨r, hr, hro, hb⟩)
            · exact .inl hb
            · exact .inr ⟨r, ⟨head, hhead, hdrained, hannounce.trans hr, hro⟩, hb⟩

/-! ### A connection -/

/-- Why no request was answered after the responses `rs`: there are no more, the last response
closes, or the peer closed. -/
def Finished (rs : List Response) (rest : List Request) : Prop :=
  rest = [] ∨ (∃ r, rs.getLast? = some r ∧ r.head.keepAlive = false) ∨
    ∃ req reqs, rest = req :: reqs ∧ (req.head = .ok none ∨ req.drained = .ok false)

/-- The beginning of a response to the next request, if anything. -/
def Truncated (cfg : ConnConfig) (rest : List Request) (tail : List UInt8) : Prop :=
  tail = [] ∨ ∃ req reqs r, rest = req :: reqs ∧ Answers cfg req r ∧ tail <+: r.bytes ∧
    tail ≠ r.bytes

/-- What a connection on which the requests `reqs` come carries: responses in order, and what is
left of one that was broken off. -/
def Carries (cfg : ConnConfig) (reqs : List Request) (rs : List Response) (rest : List Request)
    (tail b : List UInt8) : Prop :=
  ∃ answered, reqs = answered ++ rest ∧ List.Forall₂ (Answers cfg) answered rs ∧
    b = (rs.map Response.bytes).flatten ++ tail

theorem Carries.cons {cfg : ConnConfig} {req : Request} {reqs : List Request} {r : Response}
    {rs : List Response} {rest : List Request} {tail b : List UInt8} (hr : Answers cfg req r)
    (h : Carries cfg reqs rs rest tail b) :
    Carries cfg (req :: reqs) (r :: rs) rest tail (r.bytes ++ b) := by
  obtain ⟨answered, hreqs, hrs, hb⟩ := h
  refine ⟨req :: answered, by rw [hreqs]; rfl, .cons hr hrs, ?_⟩
  rw [hb, List.map_cons, List.flatten_cons, List.append_assoc]

theorem Finished.cons {r : Response} {rs : List Response} {rest : List Request}
    (h : Finished rs rest) : Finished (r :: rs) rest := by
  rcases h with h | ⟨last, hlast, hclose⟩ | h
  · exact .inl h
  · refine .inr (.inl ⟨last, ?_, hclose⟩)
    rw [List.getLast?_cons, hlast]
    rfl
  · exact .inr (.inr h)

theorem carries_nil (cfg : ConnConfig) (reqs : List Request) (tail : List UInt8) :
    Carries cfg reqs [] reqs tail tail :=
  ⟨[], rfl, .nil, rfl⟩

theorem Answers.keepAlive {cfg : ConnConfig} {req : Request} {r : Response}
    (hr : Answers cfg req r) {head : Head} (hhead : req.head = .ok (some head)) :
    r.head.keepAlive = head.keepAlive := by
  obtain ⟨head', hhead', -, hannounce, -⟩ := hr
  cases hhead.symm.trans hhead'
  rw [announce] at hannounce
  split at hannounce
  · rw [← Option.some.inj hannounce]
    rfl
  · rw [← Option.some.inj hannounce]
    rfl
  · split at hannounce
    · obtain ⟨len, -, hlen⟩ := Option.map_eq_some_iff.mp hannounce
      rw [← hlen]
      rfl
    · rw [← Option.some.inj hannounce]
      rfl

/-- A response that the connection may have broken off. -/
theorem carries_of_prefix {cfg : ConnConfig} {req : Request} {r : Response} {b : List UInt8}
    (hr : Answers cfg req r) (hbegins : b <+: r.bytes) (reqs : List Request) :
    ∃ rs rest tail, Carries cfg (req :: reqs) rs rest tail b ∧ Truncated cfg rest tail := by
  by_cases hb : b = r.bytes
  · have hcarries := (carries_nil cfg reqs []).cons hr
    rw [List.append_nil, ← hb] at hcarries
    exact ⟨[r], reqs, [], hcarries, .inl rfl⟩
  · exact ⟨[], req :: reqs, b, carries_nil cfg _ b, .inr ⟨req, reqs, r, rfl, hr, hbegins, hb⟩⟩

theorem writes_handleConn (cfg : ConnConfig) (reqs : List Request) :
    (handleConn cfg reqs).Writes
      (fun _ b => ∃ rs rest, Carries cfg reqs rs rest [] b ∧ Finished rs rest)
      fun b => ∃ rs rest tail, Carries cfg reqs rs rest tail b ∧ Truncated cfg rest tail := by
  induction reqs with
  | nil => exact Output.writes_pure ⟨[], [], carries_nil cfg [] [], .inl rfl⟩
  | cons req reqs ih =>
      have herror : ∃ rs rest tail, Carries cfg (req :: reqs) rs rest tail [] ∧
          Truncated cfg rest tail := ⟨[], req :: reqs, [], carries_nil cfg _ [], .inl rfl⟩
      have hclosed : (req.head = .ok none ∨ req.drained = .ok false) →
          ∃ rs rest, Carries cfg (req :: reqs) rs rest [] [] ∧ Finished rs rest := fun h =>
        ⟨[], req :: reqs, carries_nil cfg _ [], .inr (.inr ⟨req, reqs, rfl, h⟩)⟩
      rw [handleConn]
      refine Output.Writes.bind (P := fun h b => req.head = .ok h ∧ b = []) (Q := (· = [])) ?_ ?_ ?_
      · exact Output.writes_lift (fun _ h => ⟨h, rfl⟩) rfl
      · rintro head b ⟨hhead, hnil⟩
        rw [hnil]
        cases head with
        | none => exact Output.writes_pure (hclosed (.inl hhead))
        | some head =>
            refine Output.Writes.bind (P := fun d b => req.drained = .ok d ∧ b = []) (Q := (· = []))
              ?_ ?_ ?_
            · exact Output.writes_lift (fun _ h => ⟨h, rfl⟩) rfl
            · rintro drained b ⟨hdrained, hnil⟩
              simp only [hnil, List.nil_append]
              cases drained with
              | false => exact Output.writes_pure (hclosed (.inr hdrained))
              | true =>
                  refine (writes_respond cfg hhead hdrained).bind ?_ ?_
                  · rintro _ b ⟨r, hr, hb⟩
                    rw [hb]
                    split
                    · refine ih.mono ?_ ?_
                      · rintro _ b ⟨rs, rest, hcarries, hfinished⟩
                        exact ⟨r :: rs, rest, hcarries.cons hr, hfinished.cons⟩
                      · rintro b ⟨rs, rest, tail, hcarries, htail⟩
                        exact ⟨r :: rs, rest, tail, hcarries.cons hr, htail⟩
                    · next hclose =>
                        have hlast := (hr.keepAlive hhead).trans (Bool.eq_false_of_not_eq_true hclose)
                        exact Output.writes_pure ⟨[r], reqs, (carries_nil cfg reqs []).cons hr,
                          .inr (.inl ⟨r, rfl, hlast⟩)⟩
                  · rintro b (hb | ⟨r, hr, hbegins⟩)
                    · rw [hb]
                      exact herror
                    · exact carries_of_prefix hr hbegins reqs
            · intro b hb
              rw [hb]
              exact herror
      · intro b hb
        rw [hb]
        exact herror

/-- What a connection has carried when its handler is done, however the writes and the file fared:
the complete responses to the first requests, in order, and nothing more unless the handler failed,
in which case the beginning of one more response may follow. -/
theorem sent_handleConn (cfg : ConnConfig) (reqs : List Request) (room : Option Nat) :
    ∃ answered rest rs tail, reqs = answered ++ rest ∧ List.Forall₂ (Answers cfg) answered rs ∧
      (handleConn cfg reqs ⟨[], room⟩).2.sent = (rs.map Response.bytes).flatten ++ tail ∧
      Truncated cfg rest tail ∧
      ((handleConn cfg reqs ⟨[], room⟩).1 = .ok () → tail = [] ∧ Finished rs rest) := by
  obtain ⟨b, hb, hok, herror⟩ := writes_handleConn cfg reqs ⟨[], room⟩
  rw [List.nil_append] at hb
  cases hrun : (handleConn cfg reqs ⟨[], room⟩).1 with
  | ok u =>
      obtain ⟨rs, rest, ⟨answered, hreqs, hrs, hsent⟩, hfinished⟩ := hok u hrun
      exact ⟨answered, rest, rs, [], hreqs, hrs, hb.trans hsent, .inl rfl, fun _ => ⟨rfl, hfinished⟩⟩
  | error e =>
      obtain ⟨rs, rest, tail, ⟨answered, hreqs, hrs, hsent⟩, htail⟩ := herror e hrun
      exact ⟨answered, rest, rs, tail, hreqs, hrs, hb.trans hsent, htail, nofun⟩

end Http

end Netbootd

end Paniolo
