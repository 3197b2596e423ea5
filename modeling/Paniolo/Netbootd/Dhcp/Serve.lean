import Paniolo.Netbootd.Dhcp.Packet

/-!
# The DHCP serve loop and its single client

`serve` answers one client for the life of the process: the first request it
decides to answer locks that hardware address in (`accept_client`), and every
other address is ignored from then on. The lock is taken in `disposition`, once
the message type and the verdict on a REQUEST are known. What the boot choice
decides comes after it: an `HTTPClient` gets no answer when no HTTP endpoint is
bound, and by then its address has been locked in.

`LockSound` is what the lock is for, over a whole sequence of datagrams, and
`lockSound_iff` says exactly for which sequences the loop provides it.
-/

namespace Paniolo

namespace Netbootd

namespace Dhcp

/-- `Verdict`: what to do with a DHCPREQUEST. -/
inductive Verdict where
  | ack
  | nak
  | ignore
deriving DecidableEq, Repr

/-- `request_verdict`. -/
def requestVerdict (req : Request) (serverIp clientIp : Ipv4) : Verdict :=
  if req.serverId.any (· ≠ serverIp) then .ignore
  else if req.requestedIp.any (· ≠ clientIp) then .nak
  else if req.ciaddr ≠ Ipv4.unspecified ∧ req.ciaddr ≠ clientIp then .nak
  else .ack

/-- `BootChoice`. -/
inductive BootChoice where
  | tftp
  | pxe
  | http (url : String)
  | ignore
deriving DecidableEq, Repr

/-- `choose_boot`. -/
def chooseBoot (req : Request) (hostIp : Ipv4) (httpEndpoint : Option Nat)
    (bootFile : String) : BootChoice :=
  if req.isHttpClient then
    match httpEndpoint with
    | some port => .http (httpBootUrl hostIp port bootFile)
    | none => .ignore
  else if req.isPxeClient then .pxe
  else .tftp

/-- `accept_client`: whether `mac` is the client, and the lock afterwards. -/
def acceptClient (active : Option Mac) (mac : Mac) : Bool × Option Mac :=
  match active with
  | some a => (a = mac, some a)
  | none => (true, some mac)

/-- `Disposition`. -/
inductive Disposition where
  | reply (msgType : UInt8)
  | otherServer
  | unserved
  | notTheClient (active : Mac)
deriving DecidableEq, Repr

/-- The message type a request would be answered with, settled before the lock
is looked at. -/
inductive Settled where
  | reply (msgType : UInt8)
  | otherServer
  | unserved
deriving DecidableEq, Repr

def settle (req : Request) (serverIp clientIp : Ipv4) : Settled :=
  if req.msgType = dhcpDiscover then .reply dhcpOffer
  else if req.msgType = dhcpRequest then
    match requestVerdict req serverIp clientIp with
    | .ack => .reply dhcpAck
    | .nak => .reply dhcpNak
    | .ignore => .otherServer
  else .unserved

/-- `disposition`, with the lock afterwards. -/
def disposition (active : Option Mac) (req : Request) (serverIp clientIp : Ipv4) :
    Disposition × Option Mac :=
  match settle req serverIp clientIp with
  | .otherServer => (.otherServer, active)
  | .unserved => (.unserved, active)
  | .reply msgType =>
      match acceptClient active req.mac with
      | (true, active) => (.reply msgType, active)
      | (false, active) => (.notTheClient (active.getD (List.replicate 6 0)), active)

/-- The arguments of `serve` that its replies depend on. -/
structure Config where
  hostIp : Ipv4
  clientIp : Ipv4
  bootFile : String
  interface : String
  httpEndpoint : Option Nat

def hexDigit (n : Nat) : Char :=
  if n < 10 then Char.ofNat (48 + n) else Char.ofNat (87 + n)

/-- `mac_string`: two hex digits a byte, with colons between. -/
def macString (mac : Mac) : String :=
  ":".intercalate ((mac.take 6).map fun b =>
    String.ofList [hexDigit (b.toNat / 16), hexDigit (b.toNat % 16)])

/-- What handling one packet does outside the loop: publish the hardware
address to the TFTP task, pin it in the ARP table, hand a reply to the
socket. -/
inductive Effect where
  | publish (mac : Mac)
  | setArp (clientIp : Ipv4) (mac interface : String)
  | send (packet : List UInt8)
deriving DecidableEq, Repr

/-- The effects of an OFFER or an ACK, in the order of the source. -/
def deliver (cfg : Config) (req : Request) (replyType : UInt8) (advert : BootAdvert) :
    List Effect :=
  [.publish req.mac, .setArp cfg.clientIp (macString req.mac) cfg.interface,
    .send (buildReply req replyType cfg.hostIp cfg.clientIp advert)]

/-- The body of the loop once a reply type is chosen. -/
def answer (cfg : Config) (req : Request) (replyType : UInt8) : List Effect :=
  if replyType = dhcpNak then [.send (buildNak req cfg.hostIp)]
  else
    match chooseBoot req cfg.hostIp cfg.httpEndpoint cfg.bootFile with
    | .http url => deliver cfg req replyType (.ofHttp url)
    | .pxe => deliver cfg req replyType (.ofPxe cfg.bootFile)
    | .tftp => deliver cfg req replyType (.ofTftp cfg.bootFile)
    | .ignore => []

/-- One round of the loop: what a received datagram does, and the active client
afterwards. The receive buffer holds 4096 bytes. -/
def handle (cfg : Config) (active : Option Mac) (datagram : List UInt8) :
    List Effect × Option Mac :=
  match parseRequest (datagram.take 4096) with
  | none => ([], active)
  | some req =>
      match disposition active req cfg.hostIp cfg.clientIp with
      | (.reply msgType, active) => (answer cfg req msgType, active)
      | (_, active) => ([], active)

/-- One round as it was run: the lock before and after, and the effects. -/
structure Round where
  before : Option Mac
  datagram : List UInt8
  effects : List Effect
  after : Option Mac
deriving DecidableEq

/-- `serve` over a sequence of received datagrams. -/
def serve (cfg : Config) : Option Mac → List (List UInt8) → List Round
  | _, [] => []
  | active, d :: ds =>
      ⟨active, d, (handle cfg active d).1, (handle cfg active d).2⟩ ::
        serve cfg (handle cfg active d).2 ds

/-! ## One round -/

/-- The request a datagram carries, if it carries one. -/
def requestOf (datagram : List UInt8) : Option Request :=
  parseRequest (datagram.take 4096)

/-- Everything one round can do: nothing, or an answer to the client the lock
holds afterwards. -/
theorem handle_cases (cfg : Config) (active : Option Mac) (d : List UInt8) :
    handle cfg active d = ([], active) ∧
        (∀ req t, requestOf d = some req →
          settle req cfg.hostIp cfg.clientIp = .reply t → ∃ a, active = some a ∧ a ≠ req.mac) ∨
      ∃ req t, requestOf d = some req ∧ settle req cfg.hostIp cfg.clientIp = .reply t ∧
        (active = none ∨ active = some req.mac) ∧
        handle cfg active d = (answer cfg req t, some req.mac) := by
  unfold handle requestOf
  cases hp : parseRequest (d.take 4096) with
  | none => exact .inl ⟨rfl, by simp⟩
  | some req =>
      cases hs : settle req cfg.hostIp cfg.clientIp with
      | otherServer =>
          left
          simp only [disposition, hs, true_and]
          intro req' t h h'
          cases h
          rw [hs] at h'
          cases h'
      | unserved =>
          left
          simp only [disposition, hs, true_and]
          intro req' t h h'
          cases h
          rw [hs] at h'
          cases h'
      | reply t =>
          cases active with
          | none =>
              right
              refine ⟨req, t, rfl, hs, .inl rfl, ?_⟩
              simp only [disposition, hs, acceptClient]
          | some a =>
              by_cases ha : a = req.mac
              · right
                refine ⟨req, t, rfl, hs, .inr (by rw [ha]), ?_⟩
                simp [disposition, hs, acceptClient, ha]
              · left
                refine ⟨?_, fun req' t' h _ => ?_⟩
                · simp [disposition, hs, acceptClient, ha]
                · cases h
                  exact ⟨a, rfl, ha⟩

/-- The effects of a round are meant for the client `m`. -/
def Effect.isFor (m : Mac) : Effect → Prop
  | .publish mac => mac = m
  | .setArp _ mac _ => mac = macString m
  | .send pkt => (replyChaddr pkt).take 6 = m

/-- A reply that `serve` sends for `req`: a lease offer or grant of the client
address, or a refusal with no address. -/
def Effect.Answers (cfg : Config) (req : Request) (pkt : List UInt8) : Prop :=
  ReplyTo req dhcpOffer cfg.clientIp.octets pkt ∨ ReplyTo req dhcpAck cfg.clientIp.octets pkt ∨
    ReplyTo req dhcpNak (List.replicate 4 0) pkt

theorem settle_reply {req : Request} {serverIp clientIp : Ipv4} {t : UInt8}
    (h : settle req serverIp clientIp = .reply t) :
    t = dhcpOffer ∨ t = dhcpAck ∨ t = dhcpNak := by
  unfold settle at h
  split at h
  · cases h
    exact .inl rfl
  · split at h
    · split at h
      · cases h
        exact .inr (.inl rfl)
      · cases h
        exact .inr (.inr rfl)
      · cases h
    · cases h

/-- The one case in which a request that has settled on a reply gets none. -/
def Unanswered (cfg : Config) (req : Request) (t : UInt8) : Prop :=
  t ≠ dhcpNak ∧ req.isHttpClient = true ∧ cfg.httpEndpoint = none

theorem deliver_spec (cfg : Config) (req : Request) {t : UInt8}
    (ht : t = dhcpOffer ∨ t = dhcpAck) (advert : BootAdvert) :
    (∀ e ∈ deliver cfg req t advert, e.isFor req.mac) ∧
      (∀ pkt, .send pkt ∈ deliver cfg req t advert → Effect.Answers cfg req pkt) ∧
      ∃ pkt, .send pkt ∈ deliver cfg req t advert := by
  have hreply := replyTo_buildReply req t cfg.hostIp cfg.clientIp advert
  generalize hpkt : buildReply req t cfg.hostIp cfg.clientIp advert = pkt at hreply
  have hdeliver : deliver cfg req t advert =
      [.publish req.mac, .setArp cfg.clientIp (macString req.mac) cfg.interface, .send pkt] := by
    rw [deliver, hpkt]
  rw [hdeliver]
  refine ⟨?_, ?_, pkt, by simp⟩
  · intro e he
    simp only [List.mem_cons, List.not_mem_nil, or_false] at he
    rcases he with rfl | rfl | rfl
    · rfl
    · rfl
    · rw [Effect.isFor, hreply.chaddr, Request.mac]
  · intro pkt' hpkt'
    simp only [List.mem_cons, List.not_mem_nil, or_false, reduceCtorEq, false_or,
      Effect.send.injEq] at hpkt'
    rw [hpkt']
    rcases ht with ht | ht
    · rw [ht] at hreply
      exact .inl hreply
    · rw [ht] at hreply
      exact .inr (.inl hreply)

theorem nak_spec (cfg : Config) (req : Request) :
    Effect.isFor req.mac (.send (buildNak req cfg.hostIp)) ∧
      Effect.Answers cfg req (buildNak req cfg.hostIp) := by
  have hreply := replyTo_buildNak req cfg.hostIp
  refine ⟨?_, .inr (.inr hreply)⟩
  rw [Effect.isFor, hreply.chaddr, Request.mac]

/-- Every effect of an answer is for the requester, every packet in it answers
the request, and it holds a packet unless the request is `Unanswered`. -/
theorem answer_spec (cfg : Config) (req : Request) {t : UInt8}
    (ht : t = dhcpOffer ∨ t = dhcpAck ∨ t = dhcpNak) :
    (∀ e ∈ answer cfg req t, e.isFor req.mac) ∧
      (∀ pkt, .send pkt ∈ answer cfg req t → Effect.Answers cfg req pkt) ∧
      (Unanswered cfg req t → answer cfg req t = []) ∧
      (¬ Unanswered cfg req t → ∃ pkt, .send pkt ∈ answer cfg req t) := by
  unfold answer
  by_cases hnak : t = dhcpNak
  · obtain ⟨hfor, hanswers⟩ := nak_spec cfg req
    rw [if_pos hnak]
    refine ⟨?_, ?_, fun h => absurd hnak h.1,
      fun _ => ⟨buildNak req cfg.hostIp, List.mem_singleton_self _⟩⟩
    · intro e he
      rw [List.mem_singleton.mp he]
      exact hfor
    · intro pkt hpkt
      rw [List.mem_singleton, Effect.send.injEq] at hpkt
      rw [hpkt]
      exact hanswers
  · rw [if_neg hnak]
    have ht' : t = dhcpOffer ∨ t = dhcpAck := by
      rcases ht with h | h | h
      · exact .inl h
      · exact .inr h
      · exact absurd h hnak
    have hdeliver := deliver_spec cfg req ht'
    cases hhttp : req.isHttpClient with
    | false =>
        have hun : ¬ Unanswered cfg req t := fun h => absurd (hhttp.symm.trans h.2.1) (by decide)
        simp only [chooseBoot, hhttp]
        cases hpxe : req.isPxeClient with
        | false =>
            obtain ⟨h₁, h₂, h₃⟩ := hdeliver (.ofTftp cfg.bootFile)
            exact ⟨h₁, h₂, fun h => absurd h hun, fun _ => h₃⟩
        | true =>
            obtain ⟨h₁, h₂, h₃⟩ := hdeliver (.ofPxe cfg.bootFile)
            exact ⟨h₁, h₂, fun h => absurd h hun, fun _ => h₃⟩
    | true =>
        cases hport : cfg.httpEndpoint with
        | none =>
            have hun : Unanswered cfg req t := ⟨hnak, hhttp, hport⟩
            simp only [chooseBoot, hhttp, if_true]
            exact ⟨by simp, by simp, fun _ => trivial, fun h => absurd hun h⟩
        | some port =>
            have hun : ¬ Unanswered cfg req t := fun h => by
              have hnone := h.2.2
              rw [hport] at hnone
              cases hnone
            simp only [chooseBoot, hhttp, if_true]
            obtain ⟨h₁, h₂, h₃⟩ :=
              hdeliver (.ofHttp (httpBootUrl cfg.hostIp port cfg.bootFile))
            exact ⟨h₁, h₂, fun h => absurd h hun, fun _ => h₃⟩

/-! ## Whole runs -/

/-- What the single-client lock is for, over a whole sequence of datagrams. -/
structure LockSound (cfg : Config) (rounds : List Round) : Prop where
  /-- The lock is taken only by a packet that is answered, and the answer goes
  to the address locked in. -/
  answered : ∀ r ∈ rounds, ∀ m, r.before ≠ some m → r.after = some m →
    ∃ pkt, .send pkt ∈ r.effects ∧ Effect.isFor m (.send pkt)
  /-- Once taken it never changes, and nothing is done for anyone else. -/
  held : ∀ r ∈ rounds, ∀ m, r.before = some m →
    r.after = some m ∧ (∀ e ∈ r.effects, e.isFor m) ∧
      (∀ req, requestOf r.datagram = some req → req.mac ≠ m → r.effects = [])
  /-- Every packet sent answers the request of its round. -/
  replies : ∀ r ∈ rounds, ∀ pkt, .send pkt ∈ r.effects →
    ∃ req, requestOf r.datagram = some req ∧ Effect.Answers cfg req pkt

/-- The first request of a sequence that settles on a reply, with the type of
that reply. -/
def firstSettled (cfg : Config) : List (List UInt8) → Option (Request × UInt8)
  | [] => none
  | d :: ds =>
      match requestOf d with
      | none => firstSettled cfg ds
      | some req =>
          match settle req cfg.hostIp cfg.clientIp with
          | .reply t => some (req, t)
          | .otherServer => firstSettled cfg ds
          | .unserved => firstSettled cfg ds

/-- No round of a locked loop takes the lock, and each keeps it. -/
theorem lockSound_of_active (cfg : Config) (m : Mac) (ds : List (List UInt8)) :
    LockSound cfg (serve cfg (some m) ds) := by
  induction ds with
  | nil => exact ⟨by simp [serve], by simp [serve], by simp [serve]⟩
  | cons d ds ih =>
      rcases handle_cases cfg (some m) d with ⟨hidle, -⟩ | ⟨req, t, hreq, hsettle, hact, hans⟩
      · rw [serve, hidle]
        refine ⟨?_, ?_, ?_⟩
        · rintro r (_ | ⟨_, hr⟩) m' hb ha
          · exact absurd ha hb
          · exact ih.answered r hr m' hb ha
        · rintro r (_ | ⟨_, hr⟩) m' hb
          · exact ⟨hb, by simp, by simp⟩
          · exact ih.held r hr m' hb
        · rintro r (_ | ⟨_, hr⟩) pkt hpkt
          · simp at hpkt
          · exact ih.replies r hr pkt hpkt
      · have hm : m = req.mac := by simpa using hact
        obtain ⟨hfor, hpkts, -, -⟩ := answer_spec cfg req (settle_reply hsettle)
        rw [serve, hans, ← hm]
        refine ⟨?_, ?_, ?_⟩
        · rintro r (_ | ⟨_, hr⟩) m' hb ha
          · exact absurd ha hb
          · exact ih.answered r hr m' hb ha
        · rintro r (_ | ⟨_, hr⟩) m' hb
          · have hm' : m' = req.mac := by rw [← hm]; exact (Option.some.inj hb).symm
            refine ⟨hb, by rw [hm']; exact hfor, fun req' hreq' hne => ?_⟩
            rw [hreq] at hreq'
            cases hreq'
            exact absurd hm'.symm hne
          · exact ih.held r hr m' hb
        · rintro r (_ | ⟨_, hr⟩) pkt hpkt
          · exact ⟨req, hreq, hpkts pkt hpkt⟩
          · exact ih.replies r hr pkt hpkt

/-- A round that leaves an empty lock empty has no part in soundness. -/
theorem lockSound_cons_idle {cfg : Config} {d : List UInt8} {rounds : List Round} :
    LockSound cfg (⟨none, d, [], none⟩ :: rounds) ↔ LockSound cfg rounds := by
  constructor
  · intro h
    exact ⟨fun r hr => h.answered r (List.mem_cons_of_mem _ hr),
      fun r hr => h.held r (List.mem_cons_of_mem _ hr),
      fun r hr => h.replies r (List.mem_cons_of_mem _ hr)⟩
  · intro h
    refine ⟨?_, ?_, ?_⟩
    · rintro r (_ | ⟨_, hr⟩) m hb ha
      · cases ha
      · exact h.answered r hr m hb ha
    · rintro r (_ | ⟨_, hr⟩) m hb
      · cases hb
      · exact h.held r hr m hb
    · rintro r (_ | ⟨_, hr⟩) pkt hpkt
      · simp at hpkt
      · exact h.replies r hr pkt hpkt

/-- The round that takes the lock is sound exactly when its request is
answered. -/
theorem lockSound_cons_take {cfg : Config} {d : List UInt8} {ds : List (List UInt8)}
    {req : Request} {t : UInt8} (hreq : requestOf d = some req)
    (hsettle : settle req cfg.hostIp cfg.clientIp = .reply t) :
    LockSound cfg (⟨none, d, answer cfg req t, some req.mac⟩ :: serve cfg (some req.mac) ds) ↔
      ¬ Unanswered cfg req t := by
  obtain ⟨hfor, hpkts, hnone, hsome⟩ := answer_spec cfg req (settle_reply hsettle)
  have ih := lockSound_of_active cfg req.mac ds
  constructor
  · intro h hun
    obtain ⟨pkt, hpkt, -⟩ :=
      h.answered _ (List.mem_cons_self ..) req.mac (by simp) rfl
    rw [hnone hun] at hpkt
    simp at hpkt
  · intro hun
    obtain ⟨pkt, hpkt⟩ := hsome hun
    refine ⟨?_, ?_, ?_⟩
    · rintro r (_ | ⟨_, hr⟩) m hb ha
      · cases ha
        exact ⟨pkt, hpkt, hfor _ hpkt⟩
      · exact ih.answered r hr m hb ha
    · rintro r (_ | ⟨_, hr⟩) m hb
      · cases hb
      · exact ih.held r hr m hb
    · rintro r (_ | ⟨_, hr⟩) pkt' hpkt'
      · exact ⟨req, hreq, hpkts pkt' hpkt'⟩
      · exact ih.replies r hr pkt' hpkt'

/-- The lock of the serve loop is sound over a sequence of datagrams exactly
when the first request in it that settles on a reply is not an `HTTPClient`'s
DISCOVER or granted REQUEST received without an HTTP endpoint. -/
theorem lockSound_iff (cfg : Config) (ds : List (List UInt8)) :
    LockSound cfg (serve cfg none ds) ↔
      ∀ req t, firstSettled cfg ds = some (req, t) →
        t = dhcpNak ∨ req.isHttpClient = false ∨ cfg.httpEndpoint ≠ none := by
  induction ds with
  | nil => exact ⟨by simp [firstSettled], fun _ => ⟨by simp [serve], by simp [serve], by simp [serve]⟩⟩
  | cons d ds ih =>
      have hcond : ∀ req t, ¬ Unanswered cfg req t ↔
          (t = dhcpNak ∨ req.isHttpClient = false ∨ cfg.httpEndpoint ≠ none) := by
        intro req t
        unfold Unanswered
        cases req.isHttpClient <;> tauto
      rcases handle_cases cfg none d with ⟨hidle, hnot⟩ | ⟨req, t, hreq, hsettle, -, hans⟩
      · have hskip : firstSettled cfg (d :: ds) = firstSettled cfg ds := by
          rw [firstSettled]
          cases hreq : requestOf d with
          | none => rfl
          | some req =>
              cases hs : settle req cfg.hostIp cfg.clientIp with
              | reply t => simpa using hnot req t hreq hs
              | otherServer => simp [hs]
              | unserved => simp [hs]
        rw [serve, hidle, lockSound_cons_idle, ih, hskip]
      · have htake : firstSettled cfg (d :: ds) = some (req, t) := by
          simp [firstSettled, hreq, hsettle]
        rw [serve, hans, lockSound_cons_take hreq hsettle, htake, hcond]
        constructor
        · intro h req' t' heq
          cases heq
          exact h
        · intro h
          exact h req t rfl

/-- A server with no HTTP endpoint. -/
def tftpOnly : Config := ⟨⟨192, 168, 99, 1⟩, ⟨192, 168, 99, 100⟩, "kernel.img", "eth0", none⟩

/-- A DISCOVER from a UEFI HTTP Boot client. -/
def httpDiscover : List UInt8 :=
  [1, 1, 6, 0, 0xde, 0xad, 0xbe, 0xef] ++ List.replicate 20 0 ++
    [0x52, 0x54, 0x00, 0x01, 0x02, 0x03] ++ List.replicate 202 0 ++ magic ++
    [optMsgType, 1, dhcpDiscover, optVendorClass, 10] ++ Utf8.bytes httpClientClass ++ [optEnd]

/-- The HTTP Boot client gets no answer, but the lock is its own afterwards. -/
theorem not_lockSound_httpDiscover :
    ¬ LockSound tftpOnly (serve tftpOnly none [httpDiscover]) := by
  intro h
  have hrounds : serve tftpOnly none [httpDiscover] =
      [⟨none, httpDiscover, [], some [0x52, 0x54, 0x00, 0x01, 0x02, 0x03]⟩] := by
    decide +kernel
  rw [hrounds] at h
  obtain ⟨pkt, hpkt, -⟩ := h.answered _ (List.mem_singleton_self _)
    [0x52, 0x54, 0x00, 0x01, 0x02, 0x03] (by simp) rfl
  simp at hpkt

end Dhcp

end Netbootd

end Paniolo
