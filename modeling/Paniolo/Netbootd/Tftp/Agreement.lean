import Paniolo.Library.Machine
import Paniolo.Netbootd.Tftp.Transfer

/-!
# Server and receiver agree on the file

The block numbers on the wire wrap at 65536, so the invariant counts blocks
from the start of the file instead. With `k` the block the server is sending
(the OACK is block 0) and `r` the number of blocks the receiver has accepted,
`Agrees` says that `k` is `r` or `r + 1`, that every datagram in flight to the
receiver is a block between `r` and `k`, that every acknowledgement in flight
is between `k - 1` and `r`, and that both queues are in increasing order. The
order is what a lossy queue without reordering keeps, and it is what makes a
number seen at the far end unambiguous although only its remainder is sent.
-/

namespace Paniolo

namespace Netbootd

namespace Tftp

/-- The payload of the `k`-th block of the file, counted from 1. -/
def blockAt (tr : Transfer) (k : Nat) : List UInt8 :=
  readBlock tr.file ((k - 1) * tr.blksize) tr.blksize

/-- The packet the server sends for block `k`; block 0 is the OACK. -/
def packetAt (tr : Transfer) (k : Nat) : List UInt8 :=
  if k = 0 then tr.oack else dataPacket (k % 65536) (blockAt tr k)

theorem packetAt_succ (tr : Transfer) (k : Nat) :
    packetAt tr (k + 1) = dataPacket ((k + 1) % 65536) (blockAt tr (k + 1)) := by
  simp [packetAt]

theorem blockAt_length (tr : Transfer) (k : Nat) :
    (blockAt tr (k + 1)).length = min tr.blksize (tr.file.length - k * tr.blksize) := by
  simp [blockAt, readBlock]

/-- The first `k + 1` blocks are the first `k` and the next one. -/
theorem take_succ_block (tr : Transfer) (k : Nat) :
    tr.file.take ((k + 1) * tr.blksize) =
      tr.file.take (k * tr.blksize) ++ blockAt tr (k + 1) := by
  rw [Nat.add_mul, Nat.one_mul, List.take_add]
  rfl

/-! ## One datagram -/

theorem receive_next (tr : Transfer) (r : Nat) (data : List UInt8) :
    Receiver.receive tr.blksize { last := r % 65536, data := data, stopped := false }
        (packetAt tr (r + 1)) =
      { last := (r + 1) % 65536
        data := data ++ blockAt tr (r + 1)
        stopped := decide ((blockAt tr (r + 1)).length < tr.blksize) } := by
  have hop : ofBe16 (UInt8.ofNat (opData / 256)) (UInt8.ofNat opData) = opData := by decide
  have hblock : (r + 1) % 65536 % 65536 = nextBlock (r % 65536) := by
    simp only [nextBlock]
    omega
  rw [packetAt_succ, dataPacket, be16, be16]
  simp only [List.cons_append, List.nil_append, Receiver.receive, hop, ofBe16_ofNat, hblock]
  simp only [nextBlock]
  simp

/-- A packet that is not the next block leaves the receiver as it was: an
earlier block, and the OACK, whatever the receiver has accepted. -/
theorem receive_old (tr : Transfer) (r : Receiver) (d : Nat)
    (h : d % 65536 ≠ nextBlock r.last) :
    r.receive tr.blksize (packetAt tr d) = r := by
  cases d with
  | zero =>
      have hop : ofBe16 (UInt8.ofNat (opOack / 256)) (UInt8.ofNat opOack) ≠ opData := by decide
      simp only [packetAt, if_true, Transfer.oack, oackPacket, be16, List.cons_append,
        List.nil_append]
      unfold Receiver.receive
      split
      · rename_i heq
        simp only [List.cons.injEq] at heq
        obtain ⟨rfl, rfl, -⟩ := heq
        rw [if_neg (fun h => hop h.1)]
      · rfl
  | succ k =>
      rw [packetAt_succ, dataPacket, be16, be16]
      simp only [List.cons_append, List.nil_append, Receiver.receive, ofBe16_ofNat]
      rw [if_neg]
      intro hand
      exact h (by omega)

theorem receive_ack (s : Server) (n : Nat) :
    s.receive true (ackPacket n) = if n % 65536 = s.block then .acked else .skip := by
  have hop : ofBe16 (UInt8.ofNat (opAck / 256)) (UInt8.ofNat opAck) = opAck := by decide
  have herr : opAck ≠ opError := by decide
  simp only [ackPacket, be16, List.cons_append, List.nil_append, Server.receive, hop,
    ofBe16_ofNat, true_and, herr, if_false]

/-! ## The invariant -/

/-- Where the server stands when it is sending block `k`: each field is what
`handle_rrq` has in its locals. -/
def ServerAt (tr : Transfer) (s : Server) (k r : Nat) : Prop :=
  match s.phase with
  | .oack => k = 0 ∧ s.block = 0 ∧ s.packet = packetAt tr 0
  | .data => 1 ≤ k ∧ s.block = k % 65536 ∧ s.offset = (k - 1) * tr.blksize ∧
      s.chunk = blockAt tr k ∧ s.packet = packetAt tr k
  | .completed => k = r ∧ tr.file.length < k * tr.blksize
  | .failed => True

/-- The invariant of a transfer, for the block `k` being sent, the number `r`
of blocks accepted, and the block numbers `ds` and `as` in flight. -/
structure Agrees (tr : Transfer) (w : World) (k r : Nat) (ds as : List Nat) : Prop where
  server : ServerAt tr w.server k r
  /-- Every block before the one being sent was a full one. -/
  full : (k - 1) * tr.blksize ≤ tr.file.length
  accepted_le : r ≤ k
  le_accepted : k ≤ r + 1
  last : w.receiver.last = r % 65536
  data : w.receiver.data = tr.file.take (r * tr.blksize)
  stopped : w.receiver.stopped = decide (0 < r ∧ tr.file.length < r * tr.blksize)
  down : w.down = ds.map (packetAt tr)
  up : w.up = as.map fun a => ackPacket (a % 65536)
  down_mem : ∀ d ∈ ds, r ≤ d ∧ d ≤ k
  up_mem : ∀ a ∈ as, k ≤ a + 1 ∧ a ≤ r
  down_sorted : ds.Pairwise (· ≤ ·)
  up_sorted : as.Pairwise (· ≤ ·)

variable {tr : Transfer} {w : World} {k r : Nat} {ds as : List Nat}

/-- A receiver that is one block behind has not stopped. -/
theorem Agrees.running (h : Agrees tr w k r ds as) (hr : r + 1 = k) :
    w.receiver.stopped = false := by
  have hfull := h.full
  subst hr
  rw [h.stopped, decide_eq_false_iff_not]
  simp only [Nat.add_sub_cancel] at hfull
  omega

/-- The receiver takes the oldest datagram in flight and acknowledges. -/
theorem Agrees.receiverReceives {d : Nat} (h : Agrees tr w k r (d :: ds) as) :
    ∃ r' as', Agrees tr
      (World.acknowledge { w with down := ds.map (packetAt tr) }
        (w.receiver.receive tr.blksize (packetAt tr d))) k r' ds as' := by
  have hd := h.down_mem d (List.mem_cons_self ..)
  have hle := h.le_accepted
  have hsorted := List.pairwise_cons.mp h.down_sorted
  by_cases hnext : d = r + 1
  · -- the block the receiver waits for
    have hk : r + 1 = k := by omega
    have hrun := h.running hk
    have hrec : w.receiver = { last := r % 65536, data := w.receiver.data, stopped := false } := by
      rw [← h.last, ← hrun]
    have hfull : r * tr.blksize ≤ tr.file.length := by
      have := h.full
      rwa [← hk, Nat.add_sub_cancel] at this
    have hs : w.server.phase ≠ .completed := by
      intro hp
      have hserver := h.server
      rw [ServerAt, hp] at hserver
      omega
    refine ⟨r + 1, as ++ [r + 1], ?_⟩
    rw [hrec, hnext, receive_next]
    refine
      { server := ?_, full := h.full, accepted_le := by omega, le_accepted := by omega,
        last := rfl, data := ?_, stopped := ?_, down := rfl, up := ?_, down_mem := ?_,
        up_mem := ?_, down_sorted := hsorted.2, up_sorted := ?_ }
    · have hserver := h.server
      unfold ServerAt at hserver ⊢
      cases hp : w.server.phase with
      | completed => exact absurd hp hs
      | oack => simpa [World.acknowledge, hp] using hserver
      | data => simpa [World.acknowledge, hp] using hserver
      | failed => simp [World.acknowledge, hp]
    · simp only [World.acknowledge]
      rw [h.data, take_succ_block]
    · simp only [World.acknowledge, blockAt_length]
      have hmul : (r + 1) * tr.blksize = r * tr.blksize + tr.blksize := by
        rw [Nat.add_mul, Nat.one_mul]
      apply decide_eq_decide.mpr
      omega
    · simp only [World.acknowledge, h.up, List.map_append, List.map_cons, List.map_nil]
    · intro e he
      have h1 := hsorted.1 e he
      have h2 := (h.down_mem e (List.mem_cons_of_mem _ he)).2
      omega
    · intro a ha
      rcases List.mem_append.mp ha with ha | ha
      · have := h.up_mem a ha
        omega
      · rw [List.mem_singleton.mp ha]
        omega
    · refine Fifo.pairwise_concat h.up_sorted fun a ha => ?_
      have := h.up_mem a ha
      omega
  · -- a repeated block: nothing changes but one more acknowledgement
    have hdr : d = r := by omega
    have hold : w.receiver.receive tr.blksize (packetAt tr d) = w.receiver := by
      apply receive_old
      rw [h.last, hdr, nextBlock]
      omega
    refine ⟨r, as ++ [r], ?_⟩
    rw [hold]
    refine
      { server := h.server, full := h.full, accepted_le := h.accepted_le,
        le_accepted := h.le_accepted, last := h.last, data := h.data, stopped := h.stopped,
        down := rfl, up := ?_, down_mem := fun e he => h.down_mem e (List.mem_cons_of_mem _ he),
        up_mem := ?_, down_sorted := hsorted.2, up_sorted := ?_ }
    · simp only [World.acknowledge, h.up, h.last, List.map_append, List.map_cons, List.map_nil]
    · intro a ha
      rcases List.mem_append.mp ha with ha | ha
      · exact h.up_mem a ha
      · rw [List.mem_singleton.mp ha]
        omega
    · exact Fifo.pairwise_concat h.up_sorted fun a ha => (h.up_mem a ha).2

theorem Server.sendBlock_waiting (tr : Transfer) (block offset : Nat) :
    (Server.sendBlock tr block offset).waiting = true := rfl

theorem World.advance_of_waiting (w : World) {s : Server} (hw : s.waiting = true) :
    w.advance s = w.transmit s := if_pos hw

/-- A waiting server sends block `k`, and waits for the ACK of `k`. -/
theorem ServerAt.waiting {s : Server} (h : ServerAt tr s k r) (hw : s.waiting = true) :
    s.block = k % 65536 ∧ s.packet = packetAt tr k := by
  unfold ServerAt at h
  unfold Server.waiting at hw
  cases hp : s.phase with
  | oack =>
      simp only [hp] at h
      obtain ⟨rfl, hblock, hpacket⟩ := h
      exact ⟨hblock, hpacket⟩
  | data =>
      simp only [hp] at h
      exact ⟨h.2.1, h.2.2.2.2⟩
  | completed => simp [hp] at hw
  | failed => simp [hp] at hw

/-- Sending block `k`, for the first time or again. -/
theorem Agrees.transmit (h : Agrees tr w k r ds as) {s : Server} {k' : Nat}
    (hs : ServerAt tr s k' r) (hw : s.waiting = true) (hk : k ≤ k')
    (hfull : (k' - 1) * tr.blksize ≤ tr.file.length) (hle : k' ≤ r + 1)
    (hup : ∀ a ∈ as, k' ≤ a + 1) :
    Agrees tr (w.transmit s) k' r (ds ++ [k']) as := by
  have hr := h.accepted_le
  refine
    { server := hs, full := hfull, accepted_le := by omega, le_accepted := hle,
      last := h.last, data := h.data, stopped := h.stopped, down := ?_, up := h.up,
      down_mem := ?_, up_mem := fun a ha => ⟨hup a ha, (h.up_mem a ha).2⟩,
      down_sorted := ?_, up_sorted := h.up_sorted }
  · simp only [World.transmit, h.down, (hs.waiting hw).2, List.map_append, List.map_cons,
      List.map_nil]
  · intro d hd
    rcases List.mem_append.mp hd with hd | hd
    · have := h.down_mem d hd
      omega
    · rw [List.mem_singleton.mp hd]
      omega
  · refine Fifo.pairwise_concat h.down_sorted fun d hd => ?_
    have := h.down_mem d hd
    omega

/-- The transfer stops without completing. -/
theorem Agrees.fail (h : Agrees tr w k r ds as) {s : Server} (hs : s.phase = .failed) :
    Agrees tr { w with server := s } k r ds as :=
  { h with server := by simp [ServerAt, hs] }

theorem Agrees.timeout (h : Agrees tr w k r ds as) (hw : w.server.waiting = true) :
    ∃ ds', Agrees tr (w.advance w.server.timeout) k r ds' as := by
  unfold Server.timeout World.advance
  split
  · have hw' : Server.waiting { w.server with attempts := w.server.attempts + 1 } = true := hw
    rw [if_pos hw']
    refine ⟨ds ++ [k], h.transmit ?_ hw' (Nat.le_refl k) h.full h.le_accepted
      fun a ha => (h.up_mem a ha).1⟩
    exact h.server
  · refine ⟨ds, ?_⟩
    rw [if_neg (by simp [Server.waiting])]
    exact h.fail rfl

/-- The ACK of the block being sent arrived: the next block, or the end. -/
theorem Agrees.acked (h : Agrees tr w k k ds as)
    (hw : w.server.waiting = true) (hup : ∀ a ∈ as, k ≤ a) :
    ∃ k' ds', Agrees tr (w.advance (w.server.acked tr)) k' k ds' as := by
  have hserver := h.server
  unfold ServerAt at hserver
  cases hp : w.server.phase with
  | oack =>
      simp only [hp] at hserver
      obtain ⟨rfl, -, -⟩ := hserver
      have hs : ServerAt tr (Server.sendBlock tr 1 0) 1 0 := by
        simp [ServerAt, Server.sendBlock, packetAt, blockAt]
      simp only [Server.acked, hp]
      rw [World.advance_of_waiting w (Server.sendBlock_waiting tr 1 0)]
      exact ⟨1, ds ++ [1], h.transmit hs rfl (by omega) (by simp) (by omega)
        fun a ha => by have := hup a ha; omega⟩
  | data =>
      simp only [hp] at hserver
      obtain ⟨hk, hblock, hoffset, hchunk, hpacket⟩ := hserver
      obtain ⟨j, rfl⟩ : ∃ j, k = j + 1 := ⟨k - 1, by omega⟩
      have hfull := h.full
      simp only [Nat.add_sub_cancel] at hfull hoffset
      have hmul : (j + 1) * tr.blksize = j * tr.blksize + tr.blksize := by
        rw [Nat.add_mul, Nat.one_mul]
      have hlen := blockAt_length tr j
      simp only [Server.acked, hp]
      split
      · rename_i hshort
        rw [hchunk] at hshort
        refine ⟨j + 1, ds, ?_⟩
        simp only [World.advance, Server.waiting]
        exact { h with server := ⟨rfl, by rw [hmul]; omega⟩ }
      · rename_i hlong
        rw [hchunk] at hlong
        have hlen' : (blockAt tr (j + 1)).length = tr.blksize := by omega
        have hoff : w.server.offset + w.server.chunk.length = (j + 1) * tr.blksize := by
          rw [hoffset, hchunk, hlen', hmul]
        have hnb : nextBlock w.server.block = (j + 2) % 65536 := by
          rw [hblock, nextBlock]
          omega
        have hs : ServerAt tr (Server.sendBlock tr ((j + 2) % 65536) ((j + 1) * tr.blksize))
            (j + 2) (j + 1) := by
          simp [ServerAt, Server.sendBlock, packetAt, blockAt]
        rw [hoff, hnb]
        rw [World.advance_of_waiting w (Server.sendBlock_waiting tr _ _)]
        exact ⟨j + 2, ds ++ [j + 2], h.transmit hs rfl (by omega)
          (by simp only [Nat.add_succ_sub_one]; omega) (by omega)
          fun a ha => by have := hup a ha; omega⟩
  | completed => simp [Server.waiting, hp] at hw
  | failed => simp [Server.waiting, hp] at hw

/-- The server takes the oldest acknowledgement in flight. -/
theorem Agrees.serverReceives {a : Nat} (h : Agrees tr w k r ds (a :: as)) :
    ∃ k' ds', Agrees tr
      (World.deliver tr { w with up := as.map fun a => ackPacket (a % 65536) } true
        (ackPacket (a % 65536))) k' r ds' as := by
  have hmem := h.up_mem a (List.mem_cons_self ..)
  have hle := h.accepted_le
  have hsorted := List.pairwise_cons.mp h.up_sorted
  have hrest : Agrees tr { w with up := as.map fun a => ackPacket (a % 65536) } k r ds as :=
    { h with
      up := rfl
      up_mem := fun b hb => h.up_mem b (List.mem_cons_of_mem _ hb)
      up_sorted := hsorted.2 }
  unfold World.deliver
  by_cases hw : w.server.waiting = true
  · have hblock := (h.server.waiting hw).1
    rw [if_pos hw, receive_ack, hblock, Nat.mod_mod]
    by_cases hak : a % 65536 = k % 65536
    · -- the numbers in flight lie within one of `k`, so equal remainders mean equal blocks
      have hak' : a = k := by omega
      have hrk : r = k := by omega
      subst hrk
      rw [if_pos hak]
      exact hrest.acked hw fun b hb => by have := hsorted.1 b hb; omega
    · rw [if_neg hak]
      exact ⟨k, ds, hrest⟩
  · rw [if_neg hw]
    exact ⟨k, ds, hrest⟩

/-! ## Whole runs -/

theorem agrees_start (tr : Transfer) :
    ∃ k ds, Agrees tr (World.start tr) k 0 ds [] := by
  by_cases hn : tr.negotiates = true
  · have hs : Server.start tr =
        { phase := .oack, block := 0, offset := 0, chunk := [], packet := tr.oack,
          attempts := 1 } := if_pos hn
    refine ⟨0, [0], ?_⟩
    rw [World.start, hs]
    constructor <;> simp [World.transmit, ServerAt, Receiver.start, packetAt]
  · have hs : Server.start tr = Server.sendBlock tr 1 0 := if_neg hn
    refine ⟨1, [1], ?_⟩
    rw [World.start, hs]
    constructor <;>
      simp [World.transmit, Server.sendBlock, ServerAt, Receiver.start, packetAt, blockAt]

theorem agrees_step (h : Agrees tr w k r ds as) {a : Action} {w' : World}
    (hstep : World.step tr w a = some w') :
    ∃ k' r' ds' as', Agrees tr w' k' r' ds' as' := by
  cases a with
  | timeout =>
      simp only [World.step] at hstep
      split at hstep
      · rename_i hw
        cases hstep
        obtain ⟨ds', h'⟩ := h.timeout hw
        exact ⟨k, r, ds', as, h'⟩
      · cases hstep
  | serverReceives =>
      simp only [World.step, h.up] at hstep
      cases as with
      | nil => simp at hstep
      | cons a as =>
          simp only [List.map_cons, Option.some.injEq] at hstep
          subst hstep
          obtain ⟨k', ds', h'⟩ := h.serverReceives
          exact ⟨k', r, ds', as, h'⟩
  | stray d =>
      simp only [World.step, World.deliver, Server.receive, ite_self, Option.some.injEq]
        at hstep
      subst hstep
      exact ⟨k, r, ds, as, h⟩
  | receiverReceives =>
      simp only [World.step, h.down] at hstep
      cases ds with
      | nil => simp at hstep
      | cons d ds =>
          simp only [List.map_cons, Option.some.injEq] at hstep
          subst hstep
          obtain ⟨r', as', h'⟩ := h.receiverReceives
          exact ⟨k, r', ds, as', h'⟩
  | reack =>
      simp only [World.step, Option.some.injEq] at hstep
      subst hstep
      refine ⟨k, r, ds, as ++ [r], { h with up := ?_, up_mem := ?_, up_sorted := ?_ }⟩
      · simp only [World.acknowledge, h.up, h.last, List.map_append, List.map_cons,
          List.map_nil]
      · intro a ha
        rcases List.mem_append.mp ha with ha | ha
        · exact h.up_mem a ha
        · rw [List.mem_singleton.mp ha]
          exact ⟨h.le_accepted, Nat.le_refl r⟩
      · exact Fifo.pairwise_concat h.up_sorted fun a ha => (h.up_mem a ha).2
  | dropDown i =>
      simp only [World.step, Option.some.injEq] at hstep
      subst hstep
      exact ⟨k, r, ds.eraseIdx i, as,
        { h with
          down := by rw [Fifo.map_eraseIdx, h.down]
          down_mem := fun d hd => h.down_mem d (List.mem_of_mem_eraseIdx hd)
          down_sorted := Fifo.pairwise_eraseIdx h.down_sorted }⟩
  | repeatDown i =>
      simp only [World.step, Option.some.injEq] at hstep
      subst hstep
      exact ⟨k, r, Fifo.repeatAt ds i, as,
        { h with
          down := by rw [Fifo.map_repeatAt, h.down]
          down_mem := fun d hd => h.down_mem d (Fifo.mem_of_mem_repeatAt hd)
          down_sorted := Fifo.pairwise_repeatAt Nat.le_refl h.down_sorted }⟩
  | dropUp i =>
      simp only [World.step, Option.some.injEq] at hstep
      subst hstep
      exact ⟨k, r, ds, as.eraseIdx i,
        { h with
          up := by rw [Fifo.map_eraseIdx, h.up]
          up_mem := fun a ha => h.up_mem a (List.mem_of_mem_eraseIdx ha)
          up_sorted := Fifo.pairwise_eraseIdx h.up_sorted }⟩
  | repeatUp i =>
      simp only [World.step, Option.some.injEq] at hstep
      subst hstep
      exact ⟨k, r, ds, Fifo.repeatAt as i,
        { h with
          up := by rw [Fifo.map_repeatAt, h.up]
          up_mem := fun a ha => h.up_mem a (Fifo.mem_of_mem_repeatAt ha)
          up_sorted := Fifo.pairwise_repeatAt Nat.le_refl h.up_sorted }⟩

theorem agrees_run {actions : List Action}
    (h : Machine.run (World.step tr) (World.start tr) actions = some w) :
    ∃ k r ds as, Agrees tr w k r ds as := by
  refine Machine.run_induct (P := fun w => ∃ k r ds as, Agrees tr w k r ds as) ?_ ?_ h
  · obtain ⟨k, ds, h⟩ := agrees_start tr
    exact ⟨k, 0, ds, [], h⟩
  · rintro w a w' ⟨k, r, ds, as, hw⟩ hstep
    exact agrees_step hw hstep

/-! ## Retransmissions -/

/-- How often each block has been sent: the current one `attempts` times, the
later ones not at all. -/
structure SendsBounded (w : World) : Prop where
  le : ∀ offset, w.sends.count offset ≤ maxRetries
  current : w.server.phase = .data → w.sends.count w.server.offset = w.server.attempts
  later : w.server.phase = .data → ∀ offset, w.server.offset < offset → w.sends.count offset = 0
  oack : w.server.phase = .oack → w.sends = []

/-- A block sent for the first time. -/
theorem SendsBounded.sendBlock (h : SendsBounded w) {block offset : Nat}
    (hfresh : ∀ o, offset ≤ o → w.sends.count o = 0) :
    SendsBounded (w.transmit (Server.sendBlock tr block offset)) := by
  have hsends : (w.transmit (Server.sendBlock tr block offset)).sends = w.sends ++ [offset] := rfl
  refine ⟨?_, ?_, ?_, ?_⟩
  · intro o
    rw [hsends, List.count_append, List.count_singleton]
    split
    · rename_i heq
      rw [beq_iff_eq] at heq
      rw [hfresh o (by omega)]
      decide
    · exact h.le o
  · intro _
    rw [hsends, List.count_append]
    simp [World.transmit, Server.sendBlock, hfresh offset (Nat.le_refl offset)]
  · intro _ o ho
    have ho' : offset < o := ho
    rw [hsends, List.count_append, List.count_singleton, hfresh o (by omega)]
    have hne : ¬(offset == o) = true := by
      rw [beq_iff_eq]
      omega
    rw [if_neg hne]
  · intro hp
    cases hp

/-- A server that has stopped sending leaves the counts as they are. -/
theorem SendsBounded.stop (h : SendsBounded w) {s : Server} (hs : s.waiting = false) :
    SendsBounded { w with server := s } := by
  have hdata : s.phase ≠ .data := by
    intro hp
    simp [Server.waiting, hp] at hs
  have hoack : s.phase ≠ .oack := by
    intro hp
    simp [Server.waiting, hp] at hs
  exact ⟨h.le, fun hp => absurd hp hdata, fun hp => absurd hp hdata, fun hp => absurd hp hoack⟩

theorem SendsBounded.timeout (h : SendsBounded w) (hw : w.server.waiting = true) :
    SendsBounded (w.advance w.server.timeout) := by
  unfold Server.timeout World.advance
  split
  · rename_i hlt
    have hw' : Server.waiting { w.server with attempts := w.server.attempts + 1 } = true := hw
    rw [if_pos hw']
    cases hp : w.server.phase with
    | data =>
        refine ⟨?_, ?_, ?_, ?_⟩
        · intro o
          simp only [World.transmit, if_true, List.count_append, List.count_singleton]
          have hcur := h.current hp
          have := h.le o
          split
          · rename_i heq
            rw [beq_iff_eq] at heq
            rw [← heq]
            omega
          · omega
        · intro _
          simp [World.transmit, h.current hp]
        · intro _ o ho
          have ho' : w.server.offset < o := ho
          have hne : ¬(w.server.offset == o) = true := by
            rw [beq_iff_eq]
            omega
          simp only [World.transmit, if_true, List.count_append, List.count_singleton,
            h.later hp o ho', if_neg hne]
        · intro hp'
          simp [World.transmit] at hp'
    | oack =>
        have hnil := h.oack hp
        refine ⟨?_, ?_, ?_, ?_⟩ <;> simp [World.transmit, hnil]
    | completed => simp [Server.waiting, hp] at hw
    | failed => simp [Server.waiting, hp] at hw
  · rw [if_neg (by simp [Server.waiting])]
    exact h.stop rfl

theorem SendsBounded.acked (hb : 0 < tr.blksize) (h : SendsBounded w)
    (hw : w.server.waiting = true) : SendsBounded (w.advance (w.server.acked tr)) := by
  cases hp : w.server.phase with
  | oack =>
      simp only [Server.acked, hp]
      rw [World.advance_of_waiting w (Server.sendBlock_waiting tr 1 0)]
      exact h.sendBlock fun o _ => by simp [h.oack hp]
  | data =>
      simp only [Server.acked, hp]
      split
      · exact h.stop rfl
      · rw [World.advance_of_waiting w (Server.sendBlock_waiting tr _ _)]
        exact h.sendBlock fun o ho => h.later hp o (by omega)
  | completed => simp [Server.waiting, hp] at hw
  | failed => simp [Server.waiting, hp] at hw

theorem SendsBounded.deliver (hb : 0 < tr.blksize) (h : SendsBounded w) (fromPeer : Bool)
    (d : List UInt8) : SendsBounded (w.deliver tr fromPeer d) := by
  unfold World.deliver
  split
  · rename_i hw
    split
    · exact h
    · exact h.acked hb hw
    · exact h.stop rfl
  · exact h

theorem sendsBounded_step (hb : 0 < tr.blksize) (h : SendsBounded w) {a : Action} {w' : World}
    (hstep : World.step tr w a = some w') : SendsBounded w' := by
  -- only the two server actions touch the server or its record of sends
  have frame : ∀ v : World, v.server = w.server → v.sends = w.sends → SendsBounded v := by
    intro v hs hsends
    exact ⟨by rw [hsends]; exact h.le, by rw [hs, hsends]; exact h.current,
      by rw [hs, hsends]; exact h.later, by rw [hs, hsends]; exact h.oack⟩
  cases a with
  | timeout =>
      simp only [World.step] at hstep
      split at hstep
      · rename_i hw
        cases hstep
        exact h.timeout hw
      · cases hstep
  | serverReceives =>
      simp only [World.step] at hstep
      split at hstep
      · cases hstep
      · rename_i d up hup
        cases hstep
        exact SendsBounded.deliver hb (frame { w with up := up } rfl rfl) true d
  | stray d =>
      simp only [World.step, Option.some.injEq] at hstep
      subst hstep
      exact h.deliver hb false d
  | receiverReceives =>
      simp only [World.step] at hstep
      split at hstep
      · cases hstep
      · cases hstep
        exact frame _ rfl rfl
  | reack =>
      cases hstep
      exact frame _ rfl rfl
  | dropDown i =>
      cases hstep
      exact frame _ rfl rfl
  | repeatDown i =>
      cases hstep
      exact frame _ rfl rfl
  | dropUp i =>
      cases hstep
      exact frame _ rfl rfl
  | repeatUp i =>
      cases hstep
      exact frame _ rfl rfl

theorem sendsBounded_start (tr : Transfer) : SendsBounded (World.start tr) := by
  by_cases hn : tr.negotiates = true
  · have hs : Server.start tr =
        { phase := .oack, block := 0, offset := 0, chunk := [], packet := tr.oack,
          attempts := 1 } := if_pos hn
    rw [World.start, hs]
    constructor <;> simp [World.transmit, maxRetries]
  · have hs : Server.start tr = Server.sendBlock tr 1 0 := if_neg hn
    rw [World.start, hs]
    constructor <;>
      simp [World.transmit, Server.sendBlock, maxRetries, List.count_singleton]
    · intro o
      split <;> omega
    · intro o ho
      omega

/-- The receiver's data is at every moment a prefix of the file; a transfer the
server reports as completed has delivered the file and its short last block,
however long the file is; and no block is sent more than `maxRetries` times. -/
theorem transfer_agrees (tr : Transfer) (hmin : 8 ≤ tr.blksize) (hmax : tr.blksize ≤ 65464)
    (actions : List Action) (w : World)
    (h : Machine.run (World.step tr) (World.start tr) actions = some w) :
    w.receiver.data <+: tr.file ∧
      (w.server.phase = .completed →
        w.receiver.data = tr.file ∧ w.receiver.stopped = true) ∧
      ∀ offset, w.sends.count offset ≤ maxRetries := by
  have hb : 0 < tr.blksize := by omega
  obtain ⟨k, r, ds, as, hagrees⟩ := agrees_run h
  refine ⟨?_, ?_, ?_⟩
  · rw [hagrees.data]
    exact List.take_prefix _ _
  · intro hp
    have hserver := hagrees.server
    simp only [ServerAt, hp] at hserver
    obtain ⟨rfl, hlt⟩ := hserver
    refine ⟨?_, ?_⟩
    · rw [hagrees.data, List.take_of_length_le (by omega)]
    · rw [hagrees.stopped, decide_eq_true_eq]
      refine ⟨Nat.pos_of_ne_zero fun h0 => ?_, hlt⟩
      rw [h0] at hlt
      omega
  · exact (Machine.run_induct (sendsBounded_start tr)
      (fun _ _ _ hw hstep => sendsBounded_step hb hw hstep) h).le

/-- A file of exactly one block, so that the last block is empty. -/
def oneFullBlock : Transfer := ⟨List.replicate 8 7, 8, true, false⟩

/-- A network that loses a block and repeats an acknowledgement. -/
def lossyDelivery : List Action :=
  [.receiverReceives, .serverReceives, .dropDown 0, .timeout, .receiverReceives, .repeatUp 0,
    .serverReceives, .serverReceives, .receiverReceives, .serverReceives]

theorem transfer_agrees_oneFullBlock :
    ∃ w, Machine.run (World.step oneFullBlock) (World.start oneFullBlock) lossyDelivery = some w ∧
      w.server.phase = .completed ∧ w.receiver.data = oneFullBlock.file :=
  ⟨_, rfl, rfl, ((transfer_agrees oneFullBlock (by decide) (by decide) lossyDelivery _ rfl).2.1
    rfl).1⟩

end Tftp

end Netbootd

end Paniolo
