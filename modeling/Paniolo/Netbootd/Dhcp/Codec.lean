import Paniolo.Netbootd.Dhcp.Packet
import Paniolo.Library.Slice
import Paniolo.Library.Tlv

/-!
# The DHCP option codec

What `parse_request` reads from a packet that was written option by option, and
what the options of a reply are read back as. `parseRequestChecked` is
`parse_request` with the positions of its loop and every index checked.
-/

namespace Paniolo

namespace Netbootd

namespace Dhcp

open Tlv (lastValue lastValue_concat_self lastValue_concat_of_ne)

/-! ### The option loop -/

/-- The fields after a list of options. -/
def Options.ofPairs (o : Options) (opts : List (UInt8 × List UInt8)) : Options :=
  opts.foldl (fun o opt => o.set opt.1 opt.2) o

theorem Options.scan_eq_readLoop (fuel : Nat) (l : List UInt8) (o : Options) :
    Options.scan fuel l o = o.ofPairs (Tlv.readLoop fuel l).1 := by
  induction fuel generalizing l o with
  | zero => rfl
  | succ fuel ih =>
      cases l with
      | nil => rfl
      | cons tag rest =>
          unfold Options.scan Tlv.readLoop
          by_cases hend : tag = optEnd
          · rw [if_pos hend, if_pos (show tag = Tlv.END from hend)]
            rfl
          rw [if_neg hend, if_neg (show tag ≠ Tlv.END from hend)]
          by_cases hpad : tag = 0
          · rw [if_pos hpad, if_pos (show tag = Tlv.PAD from hpad)]
            exact ih rest o
          rw [if_neg hpad, if_neg (show tag ≠ Tlv.PAD from hpad)]
          cases rest with
          | nil => rfl
          | cons len rest =>
              simp only
              by_cases hcut : rest.length < len.toNat
              · rw [if_pos hcut, if_pos hcut]
                rfl
              · rw [if_neg hcut, if_neg hcut]
                exact ih _ _

/-- The loop reads the options of the list. -/
theorem Options.scan_eq_read {fuel : Nat} {l : List UInt8} (h : l.length ≤ fuel) (o : Options) :
    Options.scan fuel l o = o.ofPairs (Tlv.read l).1 := by
  rw [Options.scan_eq_readLoop, Tlv.readLoop_eq_read h]

/-! ### Indexing -/

/-- `ipv4_at`. -/
def ipv4At? (data : List UInt8) (at' : Nat) : Option Ipv4 :=
  match data[at']?, data[at' + 1]?, data[at' + 2]?, data[at' + 3]? with
  | some a, some b, some c, some d => some ⟨a, b, c, d⟩
  | _, _, _, _ => none

/-- One option of the loop; see `Options.set`. -/
def Options.setChecked (o : Options) (tag : UInt8) (val : List UInt8) : Option Options :=
  if tag = optMsgType ∧ 1 ≤ val.length then
    (val[0]?).map fun t => { o with msgType := t }
  else if tag = optRequestedIp ∧ val.length = 4 then
    (ipv4At? val 0).map fun ip => { o with requestedIp := some ip }
  else if tag = optServerId ∧ val.length = 4 then
    (ipv4At? val 0).map fun ip => { o with serverId := some ip }
  else if tag = optVendorClass ∧ 1 ≤ val.length then
    some { o with vendorClass := some (Utf8.lossy val) }
  else if tag = optClientArch ∧ 2 ≤ val.length then
    (be16At? val 0).map fun arch => { o with arch := some arch }
  else some o

/-- The option loop at the position `i` of `opts`; see `Options.scan`. -/
def Options.scanChecked (opts : List UInt8) : Nat → Nat → Options → Option Options
  | 0, _, o => some o
  | fuel + 1, i, o =>
      if i < opts.length then
        (opts[i]?).bind fun tag =>
          if tag = optEnd then some o
          else if tag = 0 then scanChecked opts fuel (i + 1) o
          else if opts.length ≤ i + 1 then some o
          else
            (opts[i + 1]?).bind fun len =>
              if opts.length < i + 2 + len.toNat then some o
              else
                (slice? opts (i + 2) (i + 2 + len.toNat)).bind fun val =>
                  (o.setChecked tag val).bind fun o =>
                    scanChecked opts fuel (i + 2 + len.toNat) o
      else some o

/-- `parse_request` with every index, slice and copy checked; `none` is a panic. -/
def parseRequestChecked (data : List UInt8) : Option (Option Request) :=
  if data.length < 240 then some none
  else
    (data[0]?).bind fun op =>
      if op ≠ bootRequest then some none
      else
        (data[1]?).bind fun htype =>
          if htype ≠ htypeEthernet then some none
          else
            (data[2]?).bind fun hlen =>
              if hlen ≠ hlenEthernet then some none
              else
                (slice? data 4 8).bind fun xid =>
                  (ipv4At? data 12).bind fun ciaddr =>
                    (slice? data 28 44).bind fun chaddr =>
                      if h : xid.length = 4 ∧ chaddr.length = 16 then
                        (slice? data 236 data.length).bind fun opts =>
                          if opts.length < 4 then some none
                          else
                            (slice? opts 0 4).bind fun cookie =>
                              if cookie ≠ magic then some none
                              else
                                (Options.scanChecked opts opts.length 4 {}).map fun o =>
                                  if o.msgType = 0 then none
                                  else
                                    some
                                      { xid := xid
                                        chaddr := chaddr
                                        ciaddr := ciaddr
                                        msgType := o.msgType
                                        requestedIp := o.requestedIp
                                        serverId := o.serverId
                                        vendorClass := o.vendorClass
                                        arch := o.arch
                                        xid_length := h.1
                                        chaddr_length := h.2 }
                      else none

theorem ipv4At?_eq {data : List UInt8} {i : Nat} (h : i + 4 ≤ data.length) :
    ipv4At? data i = some (ipv4At (data.drop i)) := by
  rw [ipv4At?, List.getElem?_eq_getElem (by omega), List.getElem?_eq_getElem (by omega),
    List.getElem?_eq_getElem (by omega), List.getElem?_eq_getElem (by omega),
    List.drop_eq_getElem_cons (by omega), List.drop_eq_getElem_cons (by omega),
    List.drop_eq_getElem_cons (by omega), List.drop_eq_getElem_cons (by omega)]
  rfl

theorem Options.setChecked_eq (o : Options) (tag : UInt8) (val : List UInt8) :
    o.setChecked tag val = some (o.set tag val) := by
  unfold Options.setChecked Options.set
  by_cases hmsg : tag = optMsgType
  · subst hmsg
    cases val with
    | nil => rfl
    | cons t val => rw [if_pos ⟨rfl, Nat.le_add_left 1 _⟩, if_pos rfl]; rfl
  rw [if_neg (fun h => hmsg h.1), if_neg hmsg]
  by_cases hip : tag = optRequestedIp
  · subst hip
    rw [if_pos rfl]
    by_cases hlen : val.length = 4
    · rw [if_pos ⟨rfl, hlen⟩, if_pos hlen, ipv4At?_eq (Nat.le_of_eq (by rw [hlen])), List.drop_zero]
      rfl
    · rw [if_neg (fun h => hlen h.2), if_neg hlen]
      rfl
  rw [if_neg (fun h => hip h.1), if_neg hip]
  by_cases hserver : tag = optServerId
  · subst hserver
    rw [if_pos rfl]
    by_cases hlen : val.length = 4
    · rw [if_pos ⟨rfl, hlen⟩, if_pos hlen, ipv4At?_eq (Nat.le_of_eq (by rw [hlen])), List.drop_zero]
      rfl
    · rw [if_neg (fun h => hlen h.2), if_neg hlen]
      rfl
  rw [if_neg (fun h => hserver h.1), if_neg hserver]
  by_cases hclass : tag = optVendorClass
  · subst hclass
    rw [if_pos rfl]
    by_cases hlen : 1 ≤ val.length
    · rw [if_pos ⟨rfl, hlen⟩, if_pos hlen]
    · rw [if_neg (fun h => hlen h.2), if_neg hlen]
      rfl
  rw [if_neg (fun h => hclass h.1), if_neg hclass]
  by_cases harch : tag = optClientArch
  · subst harch
    rw [if_pos rfl]
    rcases val with _ | ⟨a, _ | ⟨b, val⟩⟩
    · rfl
    · rfl
    · rw [if_pos ⟨rfl, Nat.le_add_left 2 _⟩]
      rfl
  · rw [if_neg (fun h => harch h.1), if_neg harch]

theorem Options.scanChecked_eq (opts : List UInt8) (fuel i : Nat) (o : Options) :
    Options.scanChecked opts fuel i o = some (Options.scan fuel (opts.drop i) o) := by
  induction fuel generalizing i o with
  | zero => rfl
  | succ fuel ih =>
      rw [Options.scanChecked]
      split
      · next hi =>
          rw [List.getElem?_eq_getElem hi, Option.bind_some, List.drop_eq_getElem_cons hi]
          unfold Options.scan
          split
          · rfl
          · split
            · exact ih (i + 1) o
            · split
              · next hnext =>
                  rw [List.drop_eq_nil_of_le hnext]
              · next hnext =>
                  have hlt : i + 1 < opts.length := Nat.lt_of_not_le hnext
                  have hrest : (opts.drop (i + 2)).length = opts.length - (i + 2) := List.length_drop
                  rw [List.getElem?_eq_getElem hlt, Option.bind_some, List.drop_eq_getElem_cons hlt]
                  simp only
                  by_cases hend : opts.length < i + 2 + (opts[i + 1]).toNat
                  · rw [if_pos hend, if_pos (by rw [hrest]; omega)]
                  · rw [if_neg hend, if_neg (by rw [hrest]; omega),
                      slice?_eq (Nat.le_add_right _ _) (Nat.le_of_not_lt hend), Option.bind_some,
                      Options.setChecked_eq, Option.bind_some, ih, List.drop_drop,
                      Nat.add_sub_cancel_left]
      · next hi =>
          rw [List.drop_eq_nil_of_le (Nat.le_of_not_lt hi)]
          rfl

theorem slice?_eq_slice {data : List UInt8} {a n : Nat} (h : a + n ≤ data.length) :
    slice? data a (a + n) = some (slice data a n) := by
  rw [slice?_eq (Nat.le_add_right a n) h, Nat.add_sub_cancel_left]
  rfl

theorem slice_three {data : List UInt8} (h : 240 ≤ data.length) :
    slice data 0 3 = [data[0], data[1], data[2]] := by
  rw [slice, List.drop_eq_getElem_cons (by omega), List.drop_eq_getElem_cons (by omega),
    List.drop_eq_getElem_cons (by omega)]
  rfl

/-- `parse_request` indexes nothing outside the packet. -/
theorem parseRequestChecked_eq (data : List UInt8) :
    parseRequestChecked data = some (parseRequest data) := by
  unfold parseRequestChecked parseRequest
  by_cases hlen : 240 ≤ data.length
  · rw [if_neg (Nat.not_lt_of_le hlen), dif_pos hlen, slice_three hlen,
      List.getElem?_eq_getElem (show 0 < data.length by omega), Option.bind_some]
    by_cases hop : data[0] = bootRequest
    swap
    · rw [if_pos hop, if_pos fun h => hop (List.cons.inj h).1]
    rw [if_neg (not_not.mpr hop), List.getElem?_eq_getElem (show 1 < data.length by omega),
      Option.bind_some]
    by_cases htype : data[1] = htypeEthernet
    swap
    · rw [if_pos htype, if_pos fun h => htype (List.cons.inj (List.cons.inj h).2).1]
    rw [if_neg (not_not.mpr htype), List.getElem?_eq_getElem (show 2 < data.length by omega),
      Option.bind_some]
    by_cases hhlen : data[2] = hlenEthernet
    swap
    · rw [if_pos hhlen,
        if_pos fun h => hhlen (List.cons.inj (List.cons.inj (List.cons.inj h).2).2).1]
    have hstart : [data[0], data[1], data[2]] = [bootRequest, htypeEthernet, hlenEthernet] := by
      rw [hop, htype, hhlen]
    have hfields : (slice data 4 4).length = 4 ∧ (slice data 28 16).length = 16 :=
      ⟨slice_length (by omega), slice_length (by omega)⟩
    have hopts : (data.drop 236).take (data.length - 236) = data.drop 236 :=
      List.take_of_length_le (by rw [List.length_drop])
    have hxid : slice? data 4 8 = some (slice data 4 4) :=
      slice?_eq_slice (a := 4) (n := 4) (by omega)
    have hchaddr : slice? data 28 44 = some (slice data 28 16) :=
      slice?_eq_slice (a := 28) (n := 16) (by omega)
    have hcookie : slice? (data.drop 236) 0 4 = some (slice data 236 4) := by
      rw [slice?_eq (Nat.zero_le 4) (by rw [List.length_drop]; omega)]
      rfl
    rw [if_neg (not_not.mpr hhlen), if_neg (not_not.mpr hstart),
      hxid, Option.bind_some, ipv4At?_eq (show 12 + 4 ≤ data.length by omega), Option.bind_some,
      hchaddr, Option.bind_some, dif_pos hfields,
      slice?_eq (show 236 ≤ data.length by omega) (Nat.le_refl _), Option.bind_some, hopts,
      if_neg (by rw [List.length_drop]; omega), hcookie, Option.bind_some]
    by_cases hmagic : slice data 236 4 = magic
    swap
    · rw [if_pos hmagic, if_pos hmagic]
    have hscan : Options.scan (data.drop 236).length ((data.drop 236).drop 4) {} =
        Options.scan data.length (data.drop 240) {} := by
      rw [List.drop_drop, Options.scan_eq_read, Options.scan_eq_read]
      · rw [List.length_drop]
        exact Nat.sub_le _ _
      · rw [List.length_drop, List.length_drop]
        omega
    rw [if_neg (not_not.mpr hmagic), if_neg (not_not.mpr hmagic), Options.scanChecked_eq, hscan]
    rfl
  · rw [if_pos (Nat.lt_of_not_le hlen), dif_neg hlen]

/-! ### Requests -/

/-- What `parse_request` keeps of a list of options: of each field the last option whose length
the field's rule allows. -/
def Options.last (opts : List (UInt8 × List UInt8)) : Options where
  msgType := ((lastValue optMsgType (fun n => 1 ≤ n) opts).map fun v => v.headD 0).getD 0
  requestedIp := (lastValue optRequestedIp (fun n => n = 4) opts).map ipv4At
  serverId := (lastValue optServerId (fun n => n = 4) opts).map ipv4At
  vendorClass := (lastValue optVendorClass (fun n => 1 ≤ n) opts).map Utf8.lossy
  arch := (lastValue optClientArch (fun n => 2 ≤ n) opts).map fun v =>
    ofBe16 (v.getD 0 0) (v.getD 1 0)

theorem Options.last_concat (opts : List (UInt8 × List UInt8)) (tag : UInt8) (val : List UInt8) :
    Options.last (opts ++ [(tag, val)]) = (Options.last opts).set tag val := by
  unfold Options.last Options.set
  by_cases hmsg : tag = optMsgType
  · subst hmsg
    rw [lastValue_concat_self, lastValue_concat_of_ne (by decide), lastValue_concat_of_ne (by decide),
      lastValue_concat_of_ne (by decide), lastValue_concat_of_ne (by decide), if_pos rfl]
    cases val <;> rfl
  rw [lastValue_concat_of_ne hmsg, if_neg hmsg]
  by_cases hip : tag = optRequestedIp
  · subst hip
    rw [lastValue_concat_self, lastValue_concat_of_ne (by decide), lastValue_concat_of_ne (by decide),
      lastValue_concat_of_ne (by decide), if_pos rfl]
    by_cases hlen : val.length = 4
    · rw [if_pos hlen, if_pos (decide_eq_true hlen)]
      rfl
    · rw [if_neg hlen, if_neg (by rw [decide_eq_false hlen]; exact Bool.false_ne_true)]
  rw [lastValue_concat_of_ne hip, if_neg hip]
  by_cases hserver : tag = optServerId
  · subst hserver
    rw [lastValue_concat_self, lastValue_concat_of_ne (by decide), lastValue_concat_of_ne (by decide),
      if_pos rfl]
    by_cases hlen : val.length = 4
    · rw [if_pos hlen, if_pos (decide_eq_true hlen)]
      rfl
    · rw [if_neg hlen, if_neg (by rw [decide_eq_false hlen]; exact Bool.false_ne_true)]
  rw [lastValue_concat_of_ne hserver, if_neg hserver]
  by_cases hclass : tag = optVendorClass
  · subst hclass
    rw [lastValue_concat_self, lastValue_concat_of_ne (by decide), if_pos rfl]
    by_cases hlen : 1 ≤ val.length
    · rw [if_pos hlen, if_pos (decide_eq_true hlen)]
      rfl
    · rw [if_neg hlen, if_neg (by rw [decide_eq_false hlen]; exact Bool.false_ne_true)]
  rw [lastValue_concat_of_ne hclass, if_neg hclass]
  by_cases harch : tag = optClientArch
  · subst harch
    rw [lastValue_concat_self, if_pos rfl]
    rcases val with _ | ⟨a, _ | ⟨b, val⟩⟩
    · rfl
    · rfl
    · rfl
  · rw [lastValue_concat_of_ne harch, if_neg harch]

theorem Options.ofPairs_eq_last (opts : List (UInt8 × List UInt8)) :
    Options.ofPairs {} opts = Options.last opts := by
  induction opts using List.reverseRecOn with
  | nil => rfl
  | append_singleton opts opt ih =>
      rw [Options.last_concat, ← ih]
      exact List.foldl_append

/-- A BOOTREQUEST header of an Ethernet client. -/
structure Header where
  bytes : List UInt8
  length_eq : bytes.length = 236
  start : slice bytes 0 3 = [bootRequest, htypeEthernet, hlenEthernet]

/-- A packet written option by option. -/
def Header.packet (h : Header) (items : List Tlv.Item) (ending : Tlv.Ending) : List UInt8 :=
  h.bytes ++ (magic ++ (items.flatMap Tlv.Item.encode ++ ending.encode))

/-- The request with the header and the options. -/
def Header.request (h : Header) (o : Options) : Option Request :=
  if o.msgType = 0 then none
  else some
    { xid := slice h.bytes 4 4
      chaddr := slice h.bytes 28 16
      ciaddr := ipv4At (h.bytes.drop 12)
      msgType := o.msgType
      requestedIp := o.requestedIp
      serverId := o.serverId
      vendorClass := o.vendorClass
      arch := o.arch
      xid_length := slice_length (by rw [h.length_eq]; decide)
      chaddr_length := slice_length (by rw [h.length_eq]; decide) }

theorem slice_append_of_le {l₁ l₂ : List UInt8} {a n : Nat} (h : a + n ≤ l₁.length) :
    slice (l₁ ++ l₂) a n = slice l₁ a n := by
  rw [slice, slice, List.drop_append_of_le_length (by omega), List.take_append_of_le_length]
  rw [List.length_drop]
  omega

theorem ipv4At_drop_append {l₁ l₂ : List UInt8} {i : Nat} (h : i + 4 ≤ l₁.length) :
    ipv4At ((l₁ ++ l₂).drop i) = ipv4At (l₁.drop i) := by
  have hle : i + 4 ≤ (l₁ ++ l₂).length := by
    rw [List.length_append]
    omega
  apply Option.some.inj
  rw [← ipv4At?_eq hle, ← ipv4At?_eq h, ipv4At?, ipv4At?, List.getElem?_append_left (by omega),
    List.getElem?_append_left (by omega), List.getElem?_append_left (by omega),
    List.getElem?_append_left (by omega)]

theorem parseRequest_packet (h : Header) (items : List Tlv.Item) (ending : Tlv.Ending) :
    parseRequest (h.packet items ending) =
      h.request (Options.last (items.filterMap Tlv.Item.pair?)) := by
  let opts := items.flatMap Tlv.Item.encode ++ ending.encode
  have hlen := h.length_eq
  have hpacket : h.packet items ending = h.bytes ++ (magic ++ opts) := rfl
  have htotal : (h.packet items ending).length = 240 + opts.length := by
    rw [hpacket, List.length_append, List.length_append, hlen, ← Nat.add_assoc]
    rfl
  have hstart : slice (h.packet items ending) 0 3 = [bootRequest, htypeEthernet, hlenEthernet] := by
    rw [hpacket, slice_append_of_le (by omega), h.start]
  have hcookie : slice (h.packet items ending) 236 4 = magic := by
    rw [hpacket]
    exact (slice_append_right (n := 236) (i := 0) hlen).trans (slice_append_left _ _ rfl)
  have hxid : slice (h.packet items ending) 4 4 = slice h.bytes 4 4 := by
    rw [hpacket, slice_append_of_le (by omega)]
  have hchaddr : slice (h.packet items ending) 28 16 = slice h.bytes 28 16 := by
    rw [hpacket, slice_append_of_le (by omega)]
  have hciaddr : ipv4At ((h.packet items ending).drop 12) = ipv4At (h.bytes.drop 12) := by
    rw [hpacket, ipv4At_drop_append (by omega)]
  have hdrop : (h.packet items ending).drop 240 = opts := by
    rw [hpacket, ← List.append_assoc]
    refine List.drop_left' ?_
    rw [List.length_append, hlen]
    rfl
  have hscan : Options.scan (h.packet items ending).length opts {} =
      Options.last (items.filterMap Tlv.Item.pair?) := by
    rw [Options.scan_eq_read (by omega), Tlv.read_items_ending, Options.ofPairs_eq_last]
  unfold parseRequest Header.request
  rw [dif_pos (by omega), if_neg (not_not.mpr hstart), if_neg (not_not.mpr hcookie)]
  simp only [hdrop, hscan, hxid, hchaddr, hciaddr]

/-! ### Replies -/

/-- The options of a reply, in order. -/
def replyOptions (msgType : UInt8) (serverIp : Ipv4) (advert : BootAdvert) :
    List (UInt8 × List UInt8) :=
  [(optMsgType, [msgType]), (optServerId, serverIp.octets), (optLease, be32 leaseSeconds),
      (optSubnet, subnetMask), (optRouter, serverIp.octets)] ++
    (if advert.tftp then [(optTftpServer, Utf8.bytes serverIp.text)] else []) ++
    (advert.vendorClass.elim [] fun vc => [(optVendorClass, Utf8.bytes vc)]) ++
    (if advert.vendorClass = some pxeClientClass then
      [(optVendorSpecific, [6, 1, 8, 0xff])] else []) ++
    [(optBootfile, Utf8.bytes advert.bootFile)]

def nakOptions (serverIp : Ipv4) : List (UInt8 × List UInt8) :=
  [(optMsgType, [dhcpNak]), (optServerId, serverIp.octets)]

/-- What a reader can get of an option: at most 255 bytes of its value. -/
def cutValue (opt : UInt8 × List UInt8) : UInt8 × List UInt8 := (opt.1, opt.2.take 255)

/-- The packet is the header, the magic cookie and the options, and ends with END. -/
structure Encodes (header : List UInt8) (opts : List (UInt8 × List UInt8)) (pkt : List UInt8) :
    Prop where
  header_length : header.length = 236
  header_eq : pkt.take 236 = header
  cookie : slice pkt 236 4 = magic
  options : Tlv.read (pkt.drop 240) = (opts.map cutValue, some [])
  last : pkt.getLast? = some optEnd

/-- A tag that stands for an option. -/
def IsTag (tag : UInt8) : Prop := tag ≠ Tlv.PAD ∧ tag ≠ Tlv.END

instance (tag : UInt8) : Decidable (IsTag tag) :=
  inferInstanceAs (Decidable (tag ≠ Tlv.PAD ∧ tag ≠ Tlv.END))

theorem read_encodeOption {tag : UInt8} (htag : IsTag tag) (value l : List UInt8) :
    Tlv.read (encodeOption tag value ++ l) =
      ((tag, value.take 255) :: (Tlv.read l).1, (Tlv.read l).2) :=
  Tlv.read_encode ⟨tag, value.take 255, htag.1, htag.2, List.length_take_le 255 value⟩ l

theorem read_encodeOptions {opts : List (UInt8 × List UInt8)}
    (hopts : ∀ opt ∈ opts, IsTag opt.1) (l : List UInt8) :
    Tlv.read (opts.flatMap (fun opt => encodeOption opt.1 opt.2) ++ l) =
      (opts.map cutValue ++ (Tlv.read l).1, (Tlv.read l).2) := by
  induction opts with
  | nil => rfl
  | cons opt opts ih =>
      obtain ⟨hopt, hrest⟩ := List.forall_mem_cons.mp hopts
      rw [List.flatMap_cons, List.append_assoc, read_encodeOption hopt, ih hrest]
      rfl

theorem encodes_append {header : List UInt8} (hlen : header.length = 236)
    {opts : List (UInt8 × List UInt8)}
    (hopts : ∀ opt ∈ opts, IsTag opt.1) :
    Encodes header opts
      (header ++ (magic ++ (opts.flatMap (fun opt => encodeOption opt.1 opt.2) ++ [optEnd]))) where
  header_length := hlen
  header_eq := List.take_left' hlen
  cookie := (slice_append_right (n := 236) (i := 0) hlen).trans (slice_append_left _ _ rfl)
  options := by
    have hdrop : (header ++ (magic ++ (opts.flatMap (fun opt => encodeOption opt.1 opt.2) ++
        [optEnd]))).drop 240 = opts.flatMap (fun opt => encodeOption opt.1 opt.2) ++ [optEnd] := by
      rw [← List.append_assoc]
      refine List.drop_left' ?_
      rw [List.length_append, hlen]
      rfl
    rw [hdrop, read_encodeOptions hopts, show Tlv.read [optEnd] = ([], some []) from Tlv.read_end [],
      List.append_nil]
  last := by
    rw [← List.append_assoc, ← List.append_assoc, List.getLast?_concat]

theorem replyHeader_length (req : Request) {yiaddr siaddr file : List UInt8}
    (hy : yiaddr.length = 4) (hs : siaddr.length = 4) (hf : file.length = 128) :
    (replyHeader req yiaddr siaddr file).length = 236 := by
  simp [replyHeader, req.xid_length, req.chaddr_length, hy, hs, hf]

theorem isTag_nakOptions (serverIp : Ipv4) : ∀ opt ∈ nakOptions serverIp, IsTag opt.1 := by
  simp only [nakOptions, List.forall_mem_cons]
  exact ⟨by decide, by decide, nofun⟩

theorem isTag_replyOptions (msgType : UInt8) (serverIp : Ipv4) (advert : BootAdvert) :
    ∀ opt ∈ replyOptions msgType serverIp advert, IsTag opt.1 := by
  simp only [replyOptions, List.forall_mem_append, List.forall_mem_cons]
  refine ⟨⟨⟨⟨⟨by decide, by decide, by decide, by decide, by decide, nofun⟩, ?_⟩, ?_⟩, ?_⟩,
    by decide, nofun⟩
  · intro opt hopt
    split at hopt
    · rw [List.mem_singleton.mp hopt]
      exact (by decide : IsTag optTftpServer)
    · cases hopt
  · intro opt hopt
    cases hclass : advert.vendorClass with
    | none =>
        rw [hclass] at hopt
        cases hopt
    | some vc =>
        rw [hclass] at hopt
        rw [List.mem_singleton.mp hopt]
        exact (by decide : IsTag optVendorClass)
  · intro opt hopt
    split at hopt
    · rw [List.mem_singleton.mp hopt]
      decide
    · cases hopt

theorem encodes_buildReply (req : Request) (msgType : UInt8) (serverIp clientIp : Ipv4)
    (advert : BootAdvert) :
    Encodes
      (replyHeader req clientIp.octets
        (if advert.tftp then serverIp.octets else List.replicate 4 0)
        (if advert.tftp then fileField advert.bootFile else List.replicate 128 0))
      (replyOptions msgType serverIp advert) (buildReply req msgType serverIp clientIp advert) := by
  have hlen : (replyHeader req clientIp.octets
      (if advert.tftp then serverIp.octets else List.replicate 4 0)
      (if advert.tftp then fileField advert.bootFile else List.replicate 128 0)).length = 236 := by
    refine replyHeader_length req rfl ?_ ?_
    · split <;> rfl
    · split
      · exact fileField_length advert.bootFile
      · exact List.length_replicate
  have h := encodes_append hlen (isTag_replyOptions msgType serverIp advert)
  have hopts : (replyOptions msgType serverIp advert).flatMap
      (fun opt => encodeOption opt.1 opt.2) =
        encodeOption optMsgType [msgType] ++ encodeOption optServerId serverIp.octets ++
          encodeOption optLease (be32 leaseSeconds) ++ encodeOption optSubnet subnetMask ++
          encodeOption optRouter serverIp.octets ++
          (if advert.tftp then encodeOption optTftpServer (Utf8.bytes serverIp.text) else []) ++
          (advert.vendorClass.elim [] fun vc => encodeOption optVendorClass (Utf8.bytes vc)) ++
          (if advert.vendorClass = some pxeClientClass then
            encodeOption optVendorSpecific [6, 1, 8, 0xff] else []) ++
          encodeOption optBootfile (Utf8.bytes advert.bootFile) := by
    have hclass : (advert.vendorClass.elim [] fun vc => [(optVendorClass, Utf8.bytes vc)]).flatMap
        (fun opt => encodeOption opt.1 opt.2) =
          advert.vendorClass.elim [] fun vc => encodeOption optVendorClass (Utf8.bytes vc) := by
      cases advert.vendorClass with
      | none => rfl
      | some vc => exact List.append_nil _
    simp only [replyOptions, List.flatMap_append, List.flatMap_cons, List.flatMap_nil,
      List.append_nil, apply_ite (List.flatMap _), hclass, List.append_assoc]
  rw [hopts] at h
  simp only [buildReply, List.append_assoc] at h ⊢
  exact h

theorem encodes_buildNak (req : Request) (serverIp : Ipv4) :
    Encodes (replyHeader req (List.replicate 4 0) (List.replicate 4 0) (List.replicate 128 0))
      (nakOptions serverIp) (buildNak req serverIp) := by
  have hlen := replyHeader_length req (List.length_replicate (n := 4) (a := 0))
    (List.length_replicate (n := 4) (a := 0)) (List.length_replicate (n := 128) (a := 0))
  have h := encodes_append hlen (isTag_nakOptions serverIp)
  simp only [nakOptions, List.flatMap_cons, List.flatMap_nil, List.append_nil] at h
  simp only [buildNak, List.append_assoc] at h ⊢
  exact h

/-- The option codec: requests are read as they were written, whatever the bytes no index is out of
range, and the options of replies are read back. -/
theorem codec_spec :
    (∀ (h : Header) (items : List Tlv.Item) (ending : Tlv.Ending),
        parseRequest (h.packet items ending) =
          h.request (Options.last (items.filterMap Tlv.Item.pair?))) ∧
      (∀ data, parseRequestChecked data = some (parseRequest data)) ∧
      (∀ req msgType serverIp clientIp advert,
        Encodes
          (replyHeader req clientIp.octets
            (if advert.tftp then serverIp.octets else List.replicate 4 0)
            (if advert.tftp then fileField advert.bootFile else List.replicate 128 0))
          (replyOptions msgType serverIp advert)
          (buildReply req msgType serverIp clientIp advert)) ∧
      ∀ req serverIp,
        Encodes (replyHeader req (List.replicate 4 0) (List.replicate 4 0) (List.replicate 128 0))
          (nakOptions serverIp) (buildNak req serverIp) :=
  ⟨parseRequest_packet, parseRequestChecked_eq, encodes_buildReply, encodes_buildNak⟩

end Dhcp

end Netbootd

end Paniolo
