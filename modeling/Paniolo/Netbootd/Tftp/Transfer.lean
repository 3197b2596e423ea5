import Paniolo.Library.BigEndian
import Paniolo.Library.Fifo
import Paniolo.Library.Utf8

/-!
# The TFTP transfer loop and its network

The server side is `handle_rrq` of `tftp.rs` from the optional OACK on: one
packet at a time is sent by `send_and_wait_ack`, which retransmits it on each
timeout up to `maxRetries` sends and otherwise only reacts to the ACK it waits
for. The other side is a receiver as RFC 1350 describes it. Between the two are
two queues of datagrams in flight, one for each direction; the network may drop
any of them, repeat any of them next to itself and hold them for as long as it
likes, but it keeps the order.

Datagrams are byte strings on both sides, so the layout of the DATA, ACK and
OACK packets is part of the model. The block number is a `u16`.
-/

namespace Paniolo

namespace Netbootd

namespace Tftp

def opData : Nat := 3
def opAck : Nat := 4
def opError : Nat := 5
def opOack : Nat := 6

/-- `MAX_RETRIES`: how often one packet is sent. -/
def maxRetries : Nat := 6

/-- `block.wrapping_add(1)` on a `u16`. -/
def nextBlock (block : Nat) : Nat := (block + 1) % 65536

/-- `read_block`: up to `blksize` bytes at `offset`, fewer at the end. -/
def readBlock (file : List UInt8) (offset blksize : Nat) : List UInt8 :=
  (file.drop offset).take blksize

def dataPacket (block : Nat) (chunk : List UInt8) : List UInt8 :=
  be16 opData ++ be16 block ++ chunk

def ackPacket (block : Nat) : List UInt8 :=
  be16 opAck ++ be16 block

/-- The OACK of `handle_rrq`: each option the client asked for, with the value
the server settled on. -/
def oackPacket (blksize tsize : Option Nat) : List UInt8 :=
  be16 opOack ++
    (blksize.elim [] fun n => Utf8.bytes "blksize" ++ [0] ++ Utf8.bytes (toString n) ++ [0]) ++
    (tsize.elim [] fun n => Utf8.bytes "tsize" ++ [0] ++ Utf8.bytes (toString n) ++ [0])

/-- What `handle_rrq` has settled when it starts to send: the file, the block
size, and which options the request carried. -/
structure Transfer where
  file : List UInt8
  blksize : Nat
  wantBlksize : Bool
  wantTsize : Bool

namespace Transfer

def negotiates (tr : Transfer) : Bool := tr.wantBlksize || tr.wantTsize

def oack (tr : Transfer) : List UInt8 :=
  oackPacket (if tr.wantBlksize then some tr.blksize else none)
    (if tr.wantTsize then some tr.file.length else none)

end Transfer

inductive Phase where
  | oack
  | data
  | completed
  | failed
deriving DecidableEq, Repr

/-- The transfer task: which packet it is sending, and how often it has sent
it. `chunk` is the payload of the current DATA packet. -/
structure Server where
  phase : Phase
  block : Nat
  offset : Nat
  chunk : List UInt8
  packet : List UInt8
  attempts : Nat
deriving DecidableEq, Repr

/-- What a received datagram means to the wait of `send_and_wait_ack`. -/
inductive Wait where
  | skip
  | acked
  | refused
deriving DecidableEq, Repr

namespace Server

/-- The head of the DATA loop: read the block at `offset` and send it for the
first time. -/
def sendBlock (tr : Transfer) (block offset : Nat) : Server where
  phase := .data
  block := block
  offset := offset
  chunk := readBlock tr.file offset tr.blksize
  packet := dataPacket block (readBlock tr.file offset tr.blksize)
  attempts := 1

/-- The first packet: the OACK if an option was requested, else block 1. -/
def start (tr : Transfer) : Server :=
  if tr.negotiates then
    { phase := .oack, block := 0, offset := 0, chunk := [], packet := tr.oack, attempts := 1 }
  else
    sendBlock tr 1 0

/-- `send_and_wait_ack` returned `Ok(true)`. -/
def acked (tr : Transfer) (s : Server) : Server :=
  match s.phase with
  | .oack => sendBlock tr 1 0
  | .data =>
      if s.chunk.length < tr.blksize then
        { s with phase := .completed }
      else
        sendBlock tr (nextBlock s.block) (s.offset + s.chunk.length)
  | .completed => s
  | .failed => s

/-- The deadline of one attempt passed: send the packet again, or give up. -/
def timeout (s : Server) : Server :=
  if s.attempts < maxRetries then
    { s with attempts := s.attempts + 1 }
  else
    { s with phase := .failed }

/-- One datagram read from the reply socket while waiting. `fromPeer` is the
address check; only the ACK of the current block ends the wait well, and only
an ERROR ends it badly. -/
def receive (s : Server) (fromPeer : Bool) (datagram : List UInt8) : Wait :=
  match fromPeer, datagram with
  | true, a :: b :: c :: d :: _ =>
      if ofBe16 a b = opAck ∧ ofBe16 c d = s.block then .acked
      else if ofBe16 a b = opError then .refused
      else .skip
  | _, _ => .skip

def waiting (s : Server) : Bool := s.phase == .oack || s.phase == .data

end Server

/-- An RFC 1350 receiver: the block it last accepted, the data so far, and
whether it has seen the short block that ends the file. -/
structure Receiver where
  last : Nat
  data : List UInt8
  stopped : Bool
deriving DecidableEq, Repr

namespace Receiver

def start : Receiver := { last := 0, data := [], stopped := false }

/-- Only the block after the last accepted one is accepted; everything else is
ignored here. The acknowledgement that follows is always of `last`. -/
def receive (blksize : Nat) (r : Receiver) (datagram : List UInt8) : Receiver :=
  match datagram with
  | a :: b :: c :: d :: payload =>
      if ofBe16 a b = opData ∧ r.stopped = false ∧ ofBe16 c d = nextBlock r.last then
        { last := ofBe16 c d
          data := r.data ++ payload
          stopped := decide (payload.length < blksize) }
      else r
  | _ => r

end Receiver

/-- Both parties and the datagrams in flight. `sends` records the file offset
of every DATA packet handed to the network. -/
structure World where
  server : Server
  receiver : Receiver
  down : List (List UInt8)
  up : List (List UInt8)
  sends : List Nat
deriving DecidableEq, Repr

inductive Action where
  | timeout
  | serverReceives
  | stray (datagram : List UInt8)
  | receiverReceives
  | reack
  | dropDown (i : Nat)
  | repeatDown (i : Nat)
  | dropUp (i : Nat)
  | repeatUp (i : Nat)
deriving DecidableEq, Repr

namespace World

/-- Hand the server's current packet to the network. -/
def transmit (w : World) (s : Server) : World :=
  { w with
    server := s
    down := w.down ++ [s.packet]
    sends := if s.phase = .data then w.sends ++ [s.offset] else w.sends }

/-- A server state that is still sending transmits; a finished one does not. -/
def advance (w : World) (s : Server) : World :=
  if s.waiting then w.transmit s else { w with server := s }

/-- The server reads a datagram. After the transfer has ended its socket is
closed, and the datagram is lost. -/
def deliver (tr : Transfer) (w : World) (fromPeer : Bool) (datagram : List UInt8) : World :=
  if w.server.waiting then
    match w.server.receive fromPeer datagram with
    | .skip => w
    | .acked => w.advance (w.server.acked tr)
    | .refused => { w with server := { w.server with phase := .failed } }
  else w

def start (tr : Transfer) : World :=
  let idle : World :=
    { server := Server.start tr
      receiver := Receiver.start
      down := []
      up := []
      sends := [] }
  idle.transmit (Server.start tr)

/-- Send an acknowledgement of the block the receiver last accepted. -/
def acknowledge (w : World) (r : Receiver) : World :=
  { w with receiver := r, up := w.up ++ [ackPacket r.last] }

def step (tr : Transfer) (w : World) : Action → Option World
  | .timeout => if w.server.waiting then some (w.advance w.server.timeout) else none
  | .serverReceives =>
      match w.up with
      | [] => none
      | d :: up => some ({ w with up := up }.deliver tr true d)
  | .stray d => some (w.deliver tr false d)
  | .receiverReceives =>
      match w.down with
      | [] => none
      | d :: down =>
          some (World.acknowledge { w with down := down } (w.receiver.receive tr.blksize d))
  | .reack => some (w.acknowledge w.receiver)
  | .dropDown i => some { w with down := w.down.eraseIdx i }
  | .repeatDown i => some { w with down := Fifo.repeatAt w.down i }
  | .dropUp i => some { w with up := w.up.eraseIdx i }
  | .repeatUp i => some { w with up := Fifo.repeatAt w.up i }

end World

end Tftp

end Netbootd

end Paniolo
