import Paniolo.Library.BigEndian
import Paniolo.Library.Utf8

/-!
# DHCP packets

`parse_request` and the reply builders of `dhcp.rs`, byte for byte. A request
is read from the fixed BOOTP header and the option list after the magic cookie;
a reply is a header that echoes `xid` and `chaddr`, followed by its options.
-/

namespace Paniolo

namespace Netbootd

namespace Dhcp

def bootRequest : UInt8 := 1
def bootReply : UInt8 := 2
def htypeEthernet : UInt8 := 1
def hlenEthernet : UInt8 := 6
def magic : List UInt8 := [0x63, 0x82, 0x53, 0x63]

def optSubnet : UInt8 := 1
def optRouter : UInt8 := 3
def optVendorSpecific : UInt8 := 43
def optRequestedIp : UInt8 := 50
def optLease : UInt8 := 51
def optMsgType : UInt8 := 53
def optServerId : UInt8 := 54
def optVendorClass : UInt8 := 60
def optTftpServer : UInt8 := 66
def optBootfile : UInt8 := 67
def optClientArch : UInt8 := 93
def optEnd : UInt8 := 255

def httpClientClass : String := "HTTPClient"
def pxeClientClass : String := "PXEClient"

def dhcpDiscover : UInt8 := 1
def dhcpOffer : UInt8 := 2
def dhcpRequest : UInt8 := 3
def dhcpAck : UInt8 := 5
def dhcpNak : UInt8 := 6

def leaseSeconds : Nat := 12 * 3600
def subnetMask : List UInt8 := [255, 255, 255, 0]

/-- `Ipv4Addr`. -/
structure Ipv4 where
  a : UInt8
  b : UInt8
  c : UInt8
  d : UInt8
deriving DecidableEq, Repr

namespace Ipv4

def octets (ip : Ipv4) : List UInt8 := [ip.a, ip.b, ip.c, ip.d]

def unspecified : Ipv4 := ⟨0, 0, 0, 0⟩

/-- The dotted-quad text. -/
def text (ip : Ipv4) : String :=
  toString ip.a.toNat ++ "." ++ toString ip.b.toNat ++ "." ++ toString ip.c.toNat ++ "." ++
    toString ip.d.toNat

end Ipv4

/-- `Ipv4Addr` from the four bytes at the head of a slice. -/
def ipv4At : List UInt8 → Ipv4
  | a :: b :: c :: d :: _ => ⟨a, b, c, d⟩
  | _ => Ipv4.unspecified

/-- The bytes `data[start..start + len]`. -/
def slice (data : List UInt8) (start len : Nat) : List UInt8 :=
  (data.drop start).take len

/-- A hardware address: the first six bytes of `chaddr`. -/
abbrev Mac := List UInt8

/-- The option fields `parse_request` collects. -/
structure Options where
  msgType : UInt8 := 0
  requestedIp : Option Ipv4 := none
  serverId : Option Ipv4 := none
  vendorClass : Option String := none
  arch : Option Nat := none
deriving DecidableEq, Repr

namespace Options

/-- One option of the list, its value already cut out. A value of the wrong
length is skipped. -/
def set (o : Options) (tag : UInt8) (val : List UInt8) : Options :=
  if tag = optMsgType then
    match val with
    | [] => o
    | t :: _ => { o with msgType := t }
  else if tag = optRequestedIp then
    if val.length = 4 then { o with requestedIp := some (ipv4At val) } else o
  else if tag = optServerId then
    if val.length = 4 then { o with serverId := some (ipv4At val) } else o
  else if tag = optVendorClass then
    if 1 ≤ val.length then { o with vendorClass := some (Utf8.lossy val) } else o
  else if tag = optClientArch then
    match val with
    | a :: b :: _ => { o with arch := some (ofBe16 a b) }
    | _ => o
  else o

/-- The option loop: pads are skipped, END and a truncated option end it. Every
round consumes a byte, so the length of the list is enough fuel. -/
def scan : Nat → List UInt8 → Options → Options
  | 0, _, o => o
  | _ + 1, [], o => o
  | fuel + 1, tag :: rest, o =>
      if tag = optEnd then o
      else if tag = 0 then scan fuel rest o
      else
        match rest with
        | [] => o
        | len :: rest =>
            if rest.length < len.toNat then o
            else scan fuel (rest.drop len.toNat) (o.set tag (rest.take len.toNat))

end Options

/-- The fields of an inbound packet that the server reads. -/
structure Request where
  xid : List UInt8
  chaddr : List UInt8
  ciaddr : Ipv4
  msgType : UInt8
  requestedIp : Option Ipv4
  serverId : Option Ipv4
  vendorClass : Option String
  arch : Option Nat
  xid_length : xid.length = 4
  chaddr_length : chaddr.length = 16
deriving DecidableEq, Repr

namespace Request

def classStartsWith (req : Request) (vendor : String) : Bool :=
  req.vendorClass.any fun c => vendor.toList.isPrefixOf c.toList

def isHttpClient (req : Request) : Bool := req.classStartsWith httpClientClass

def isPxeClient (req : Request) : Bool := req.classStartsWith pxeClientClass

def mac (req : Request) : Mac := req.chaddr.take 6

end Request

theorem slice_length {data : List UInt8} {start len : Nat} (h : start + len ≤ data.length) :
    (slice data start len).length = len := by
  simp only [slice, List.length_take, List.length_drop]
  omega

/-- `parse_request`. -/
def parseRequest (data : List UInt8) : Option Request :=
  if h : 240 ≤ data.length then
    if slice data 0 3 ≠ [bootRequest, htypeEthernet, hlenEthernet] then none
    else if slice data 236 4 ≠ magic then none
    else
      let o := Options.scan data.length (data.drop 240) {}
      if o.msgType = 0 then none
      else some
        { xid := slice data 4 4
          chaddr := slice data 28 16
          ciaddr := ipv4At (data.drop 12)
          msgType := o.msgType
          requestedIp := o.requestedIp
          serverId := o.serverId
          vendorClass := o.vendorClass
          arch := o.arch
          xid_length := slice_length (by omega)
          chaddr_length := slice_length (by omega) }
  else none

/-- `encode_option`: a value past 255 bytes is cut to the option limit. -/
def encodeOption (tag : UInt8) (value : List UInt8) : List UInt8 :=
  let value := value.take 255
  tag :: UInt8.ofNat value.length :: value

/-- `BootAdvert`: what to advertise as the boot source. -/
structure BootAdvert where
  bootFile : String
  tftp : Bool
  vendorClass : Option String
deriving DecidableEq, Repr

namespace BootAdvert

def ofTftp (bootFile : String) : BootAdvert := ⟨bootFile, true, none⟩

def ofHttp (url : String) : BootAdvert := ⟨url, false, some httpClientClass⟩

def ofPxe (bootFile : String) : BootAdvert := ⟨bootFile, true, some pxeClientClass⟩

end BootAdvert

/-- `http_boot_url`: port 80 is left out. -/
def httpBootUrl (hostIp : Ipv4) (port : Nat) (bootFile : String) : String :=
  let file := String.ofList (bootFile.toList.dropWhile (· == '/'))
  if port = 80 then "http://" ++ hostIp.text ++ "/" ++ file
  else "http://" ++ hostIp.text ++ ":" ++ toString port ++ "/" ++ file

/-- `reply_header`: the fixed BOOTP header of a reply to `req`. -/
def replyHeader (req : Request) (yiaddr siaddr file : List UInt8) : List UInt8 :=
  [bootReply, htypeEthernet, hlenEthernet, 0] ++ req.xid ++ [0, 0] ++ [0x80, 0x00] ++
    List.replicate 4 0 ++ yiaddr ++ siaddr ++ List.replicate 4 0 ++ req.chaddr ++
    List.replicate 64 0 ++ file

/-- The null-padded `file` field of the TFTP path. -/
def fileField (bootFile : String) : List UInt8 :=
  let name := (Utf8.bytes bootFile).take 127
  name ++ List.replicate (128 - name.length) 0

/-- `build_reply`: an OFFER or an ACK. -/
def buildReply (req : Request) (msgType : UInt8) (serverIp clientIp : Ipv4)
    (advert : BootAdvert) : List UInt8 :=
  replyHeader req clientIp.octets
      (if advert.tftp then serverIp.octets else List.replicate 4 0)
      (if advert.tftp then fileField advert.bootFile else List.replicate 128 0) ++
    magic ++
    encodeOption optMsgType [msgType] ++
    encodeOption optServerId serverIp.octets ++
    encodeOption optLease (be32 leaseSeconds) ++
    encodeOption optSubnet subnetMask ++
    encodeOption optRouter serverIp.octets ++
    (if advert.tftp then encodeOption optTftpServer (Utf8.bytes serverIp.text) else []) ++
    (advert.vendorClass.elim [] fun vc => encodeOption optVendorClass (Utf8.bytes vc)) ++
    (if advert.vendorClass = some pxeClientClass then
      encodeOption optVendorSpecific [6, 1, 8, 0xff] else []) ++
    encodeOption optBootfile (Utf8.bytes advert.bootFile) ++
    [optEnd]

/-- `build_nak`. -/
def buildNak (req : Request) (serverIp : Ipv4) : List UInt8 :=
  replyHeader req (List.replicate 4 0) (List.replicate 4 0) (List.replicate 128 0) ++
    magic ++
    encodeOption optMsgType [dhcpNak] ++
    encodeOption optServerId serverIp.octets ++
    [optEnd]

/-! ## Reading a reply back -/

def replyXid (pkt : List UInt8) : List UInt8 := slice pkt 4 4

def replyYiaddr (pkt : List UInt8) : List UInt8 := slice pkt 16 4

def replyChaddr (pkt : List UInt8) : List UInt8 := slice pkt 28 16

/-- The value of option 53, which every reply carries first. -/
def replyMsgType (pkt : List UInt8) : List UInt8 := slice pkt 240 3

/-- A reply to `req` that carries the message type `t` and the address
`yiaddr`. -/
structure ReplyTo (req : Request) (t : UInt8) (yiaddr pkt : List UInt8) : Prop where
  xid : replyXid pkt = req.xid
  chaddr : replyChaddr pkt = req.chaddr
  yiaddr : replyYiaddr pkt = yiaddr
  msgType : replyMsgType pkt = [optMsgType, 1, t]

/-- The part of an append that lies behind a prefix of known length. -/
theorem slice_append_right {l₁ l₂ : List UInt8} {n i len : Nat} (h : l₁.length = n) :
    slice (l₁ ++ l₂) (n + i) len = slice l₂ i len := by
  subst h
  rw [slice, slice, List.drop_append, List.drop_eq_nil_of_le (by omega), List.nil_append,
    Nat.add_sub_cancel_left]

theorem slice_append_left (l₁ l₂ : List UInt8) {n : Nat} (h : l₁.length = n) :
    slice (l₁ ++ l₂) 0 n = l₁ := by
  subst h
  simp [slice]

/-- A header followed by the cookie and a message type is a reply to `req`,
whatever options follow. -/
theorem replyTo_replyHeader (req : Request) (t : UInt8) {yiaddr siaddr file : List UInt8}
    (hy : yiaddr.length = 4) (hs : siaddr.length = 4) (hf : file.length = 128)
    (rest : List UInt8) :
    ReplyTo req t yiaddr
      (replyHeader req yiaddr siaddr file ++ (magic ++ (encodeOption optMsgType [t] ++ rest))) := by
  have hx := req.xid_length
  have hc := req.chaddr_length
  refine ⟨?_, ?_, ?_, ?_⟩
  · simp only [replyXid, replyHeader, List.append_assoc]
    exact (slice_append_right (n := 4) (i := 0) rfl).trans (slice_append_left _ _ hx)
  · simp only [replyChaddr, replyHeader, List.append_assoc]
    refine (slice_append_right (n := 4) (i := 24) rfl).trans ?_
    refine (slice_append_right (n := 4) (i := 20) hx).trans ?_
    refine (slice_append_right (n := 2) (i := 18) rfl).trans ?_
    refine (slice_append_right (n := 2) (i := 16) rfl).trans ?_
    refine (slice_append_right (n := 4) (i := 12) rfl).trans ?_
    refine (slice_append_right (n := 4) (i := 8) hy).trans ?_
    refine (slice_append_right (n := 4) (i := 4) hs).trans ?_
    refine (slice_append_right (n := 4) (i := 0) rfl).trans ?_
    exact slice_append_left _ _ hc
  · simp only [replyYiaddr, replyHeader, List.append_assoc]
    refine (slice_append_right (n := 4) (i := 12) rfl).trans ?_
    refine (slice_append_right (n := 4) (i := 8) hx).trans ?_
    refine (slice_append_right (n := 2) (i := 6) rfl).trans ?_
    refine (slice_append_right (n := 2) (i := 4) rfl).trans ?_
    refine (slice_append_right (n := 4) (i := 0) rfl).trans ?_
    exact slice_append_left _ _ hy
  · have hlen : (replyHeader req yiaddr siaddr file).length = 236 := by
      simp [replyHeader, hx, hc, hy, hs, hf]
    refine (slice_append_right (n := 236) (i := 4) hlen).trans ?_
    refine (slice_append_right (n := 4) (i := 0) rfl).trans ?_
    exact slice_append_left _ _ rfl

theorem fileField_length (bootFile : String) : (fileField bootFile).length = 128 := by
  simp only [fileField, List.length_append, List.length_take, List.length_replicate]
  omega

theorem replyTo_buildReply (req : Request) (t : UInt8) (serverIp clientIp : Ipv4)
    (advert : BootAdvert) :
    ReplyTo req t clientIp.octets (buildReply req t serverIp clientIp advert) := by
  simp only [buildReply, List.append_assoc]
  refine replyTo_replyHeader req t rfl ?_ ?_ _
  · split <;> rfl
  · split
    · exact fileField_length _
    · simp

theorem replyTo_buildNak (req : Request) (serverIp : Ipv4) :
    ReplyTo req dhcpNak (List.replicate 4 0) (buildNak req serverIp) := by
  simp only [buildNak, List.append_assoc]
  exact replyTo_replyHeader req dhcpNak rfl rfl (by simp) _

end Dhcp

end Netbootd

end Paniolo
