import Mathlib.Tactic.IntervalCases
import Paniolo.Library.OnesComplement
import Paniolo.Library.Slice
import Paniolo.Netbootd.Dhcp.Packet

/-!
# Raw UDP frames

`netbootd/src/frame.rs`: an Ethernet frame with an IPv4 header without options
and a UDP segment, for replies that bypass the ARP table. A frame reads back as
what it was built from and its sums verify, but a UDP checksum that comes out
as zero is sent as zero, which means that there is none.
-/

namespace Paniolo

namespace Netbootd

namespace Frame

open Dhcp OnesComplement

/-- `sum += word` in a `u32`: `none` is an overflow. -/
def add32 (sum word : Nat) : Option Nat :=
  if sum + word < 4294967296 then some (sum + word) else none

/-- The accumulator of `inet_checksum`, over the words and an odd last byte. -/
def accumulate : Nat → List UInt8 → Option Nat
  | sum, [] => some sum
  | sum, [b] => add32 sum (b.toNat * 256)
  | sum, a :: b :: rest => (add32 sum (ofBe16 a b)).bind fun sum => accumulate sum rest

/-- `inet_checksum`. -/
def inetChecksum (data : List UInt8) : Option UInt16 :=
  (accumulate 0 data).map fun sum => ~~~UInt16.ofNat (fold sum)

/-- `MAX_UDP_PAYLOAD`. -/
def maxUdpPayload : Nat := 65535 - 20 - 8

/-- The IPv4 header. -/
def ipHeader (srcIp dstIp : Ipv4) (ipLen checksum : Nat) : List UInt8 :=
  [0x45, 0x00] ++ be16 ipLen ++ be16 0 ++ be16 0x4000 ++ [64, 17] ++ be16 checksum ++
    srcIp.octets ++ dstIp.octets

/-- The pseudo-header that a UDP checksum covers as well. -/
def pseudoHeader (srcIp dstIp : Ipv4) (udpLen : Nat) : List UInt8 :=
  srcIp.octets ++ dstIp.octets ++ [0, 17] ++ be16 udpLen

def udpHeader (srcPort dstPort : UInt16) (udpLen checksum : Nat) : List UInt8 :=
  be16 srcPort.toNat ++ be16 dstPort.toNat ++ be16 udpLen ++ be16 checksum

/-- `build_udp_frame`: `none` where the accumulator of a checksum overflows. -/
def buildUdpFrame (srcMac dstMac : Vector UInt8 6) (srcIp dstIp : Ipv4) (srcPort dstPort : UInt16)
    (payload : List UInt8) : Option (Option (List UInt8)) :=
  let ipLen := 20 + 8 + payload.length
  if 65535 < ipLen then some none
  else
    let udpLen := ipLen - 20
    (inetChecksum (ipHeader srcIp dstIp ipLen 0)).bind fun ipCk =>
      (inetChecksum (pseudoHeader srcIp dstIp udpLen ++ udpHeader srcPort dstPort udpLen 0 ++
        payload)).map fun udpCk =>
          some (dstMac.toList ++ srcMac.toList ++ [0x08, 0x00] ++
            ipHeader srcIp dstIp ipLen ipCk.toNat ++
            udpHeader srcPort dstPort udpLen udpCk.toNat ++ payload)

/-- What a frame is built from. -/
structure Datagram where
  srcMac : Vector UInt8 6
  dstMac : Vector UInt8 6
  srcIp : Ipv4
  dstIp : Ipv4
  srcPort : UInt16
  dstPort : UInt16
  payload : List UInt8

namespace Datagram

variable (d : Datagram)

def build : Option (Option (List UInt8)) :=
  buildUdpFrame d.srcMac d.dstMac d.srcIp d.dstIp d.srcPort d.dstPort d.payload

/-- The words that the UDP checksum is about. -/
def udpWords : Nat :=
  wordSum d.srcIp.octets + wordSum d.dstIp.octets + 17 + 2 * (8 + d.payload.length) +
    d.srcPort.toNat + d.dstPort.toNat + wordSum d.payload

/-- A frame that says what it was built from, of the lengths it says, whose sums verify and which
has a UDP checksum. -/
structure Valid (frame : List UInt8) : Prop where
  dstMac : slice? frame 0 6 = some d.dstMac.toList
  srcMac : slice? frame 6 12 = some d.srcMac.toList
  etherType : slice? frame 12 14 = some [0x08, 0x00]
  version : frame[14]? = some 0x45
  totalLength : be16At? frame 16 = some (frame.length - 14)
  protocol : frame[23]? = some 17
  srcIp : slice? frame 26 30 = some d.srcIp.octets
  dstIp : slice? frame 30 34 = some d.dstIp.octets
  srcPort : be16At? frame 34 = some d.srcPort.toNat
  dstPort : be16At? frame 36 = some d.dstPort.toNat
  udpLength : be16At? frame 38 = some (frame.length - 34)
  payload : slice? frame 42 frame.length = some d.payload
  ipSum : fold (wordSum ((frame.drop 14).take 20)) = 65535
  udpSum : fold (wordSum (pseudoHeader d.srcIp d.dstIp (frame.length - 34) ++ frame.drop 34)) =
    65535
  udpChecksum : be16At? frame 40 ≠ some 0

/-- No accumulator overflows, there is no frame exactly for a payload that does not fit, and
otherwise it is a valid one. -/
def BuildsValid : Prop :=
  ∃ result, d.build = some result ∧ (result = none ↔ maxUdpPayload < d.payload.length) ∧
    ∀ frame, result = some frame → d.Valid frame

/-- The fields of a frame with the given checksums, in their order. -/
def fields (ipCk udpCk : Nat) : List (List UInt8) :=
  [d.dstMac.toList, d.srcMac.toList, [0x08, 0x00], [0x45, 0x00], be16 (20 + 8 + d.payload.length),
    be16 0, be16 0x4000, [64], [17], be16 ipCk, d.srcIp.octets, d.dstIp.octets,
    be16 d.srcPort.toNat, be16 d.dstPort.toNat, be16 (8 + d.payload.length), be16 udpCk,
    d.payload]

end Datagram

/-! ### The checksum -/

theorem accumulate_eq {sum : Nat} {data : List UInt8} (h : sum + wordSum data < 4294967296) :
    accumulate sum data = some (sum + wordSum data) := by
  induction data using wordSum.induct generalizing sum with
  | case1 => rfl
  | case2 b =>
      rw [wordSum] at h ⊢
      rw [accumulate, add32, if_pos h]
  | case3 a b rest ih =>
      rw [wordSum, ← Nat.add_assoc] at h ⊢
      rw [accumulate, add32, if_pos (by omega), Option.bind_some, ih h]

theorem toNat_not (n : Nat) (h : n < 65536) : (~~~UInt16.ofNat n).toNat = 65535 - n := by
  rw [UInt16.toNat_not, UInt16.toNat_ofNat_of_lt' h]
  rfl

/-- No overflow up to 131072 bytes, and the complement of the sum. -/
theorem inetChecksum_spec (data : List UInt8) (h : data.length ≤ 131072) :
    ∃ ck, inetChecksum data = some ck ∧ ck.toNat = 65535 - fold (wordSum data) := by
  have hle := wordSum_le data
  have hsum : accumulate 0 data = some (0 + wordSum data) := accumulate_eq (by omega)
  refine ⟨_, by rw [inetChecksum, hsum, Option.map_some, Nat.zero_add], ?_⟩
  exact toNat_not _ (fold_lt _)

theorem length_ipHeader (srcIp dstIp : Ipv4) (ipLen ck : Nat) :
    (ipHeader srcIp dstIp ipLen ck).length = 20 := rfl

theorem length_udpHeader (srcPort dstPort : UInt16) (udpLen ck : Nat) :
    (udpHeader srcPort dstPort udpLen ck).length = 8 := rfl

theorem length_pseudoHeader (srcIp dstIp : Ipv4) (udpLen : Nat) :
    (pseudoHeader srcIp dstIp udpLen).length = 12 := rfl

theorem wordSum_ipHeader (srcIp dstIp : Ipv4) (ipLen : Nat) {ck : Nat} (h : ck < 65536) :
    wordSum (ipHeader srcIp dstIp ipLen ck) = wordSum (ipHeader srcIp dstIp ipLen 0) + ck := by
  have hsum : ∀ ck < 65536, wordSum (ipHeader srcIp dstIp ipLen ck) =
      wordSum ([0x45, 0x00] ++ be16 ipLen ++ be16 0 ++ be16 0x4000 ++ [64, 17]) +
        (ck + wordSum (srcIp.octets ++ dstIp.octets)) := by
    intro ck hck
    rw [ipHeader, List.append_assoc, List.append_assoc, wordSum_append 5 rfl,
      wordSum_append 1 rfl (srcIp.octets ++ dstIp.octets), wordSum_be16 hck]
  rw [hsum ck h, hsum 0 (by decide)]
  omega

theorem wordSum_udpHeader (srcPort dstPort : UInt16) {udpLen ck : Nat} (hlen : udpLen < 65536)
    (hck : ck < 65536) :
    wordSum (udpHeader srcPort dstPort udpLen ck) =
      srcPort.toNat + dstPort.toNat + udpLen + ck := by
  rw [udpHeader, wordSum_append 3 rfl, wordSum_append 2 rfl, wordSum_append 1 rfl, wordSum_be16 hck,
    wordSum_be16 hlen, wordSum_be16 srcPort.toNat_lt, wordSum_be16 dstPort.toNat_lt]

theorem wordSum_pseudoHeader (srcIp dstIp : Ipv4) {udpLen : Nat} (hlen : udpLen < 65536) :
    wordSum (pseudoHeader srcIp dstIp udpLen) =
      wordSum srcIp.octets + wordSum dstIp.octets + 17 + udpLen := by
  have hproto : wordSum [0, 17] = 17 := by decide
  rw [pseudoHeader, wordSum_append 5 rfl, wordSum_append 4 rfl, wordSum_append 2 rfl, wordSum_be16 hlen,
    hproto]

namespace Datagram

variable {d : Datagram}

theorem flatten_fields (ipCk udpCk : Nat) :
    (d.fields ipCk udpCk).flatten =
      d.dstMac.toList ++ d.srcMac.toList ++ [0x08, 0x00] ++
        ipHeader d.srcIp d.dstIp (20 + 8 + d.payload.length) ipCk ++
        udpHeader d.srcPort d.dstPort (8 + d.payload.length) udpCk ++ d.payload := by
  simp only [fields, ipHeader, udpHeader, List.flatten_cons, List.flatten_nil,
    List.append_assoc, List.append_nil, List.cons_append, List.nil_append]

/-- Where each field begins. -/
theorem length_take_fields (ipCk udpCk : Nat) {k : Nat} (h : k ≤ 16) :
    ((d.fields ipCk udpCk).take k).flatten.length =
      [0, 6, 12, 14, 16, 18, 20, 22, 23, 24, 26, 30, 34, 36, 38, 40, 42].getD k 0 := by
  have hmac : ∀ mac : Vector UInt8 6, mac.toList.length = 6 := fun mac => mac.length_toList
  interval_cases k <;> simp [fields, hmac, Ipv4.octets]

theorem length_fields (ipCk udpCk : Nat) :
    (d.fields ipCk udpCk).flatten.length = 42 + d.payload.length := by
  have h := length_take_fields (d := d) ipCk udpCk (Nat.le_refl 16)
  have hlast : (d.fields ipCk udpCk)[16]? = some d.payload := rfl
  rw [flatten_split hlast, List.length_append, h, List.length_append]
  rfl

theorem build_of_lt (h : maxUdpPayload < d.payload.length) : d.build = some none := by
  have hmax : maxUdpPayload = 65507 := rfl
  rw [build, buildUdpFrame, if_pos (by omega)]

/-- A payload that fits: the frame, with the complements of both sums in it. -/
theorem build_of_le (h : d.payload.length ≤ maxUdpPayload) :
    ∃ ipCk udpCk, d.build = some (some (d.fields ipCk udpCk).flatten) ∧
      ipCk = 65535 - fold (wordSum (ipHeader d.srcIp d.dstIp (20 + 8 + d.payload.length) 0)) ∧
      udpCk = 65535 - fold d.udpWords := by
  have hmax : maxUdpPayload = 65507 := rfl
  have hudpLen : 20 + 8 + d.payload.length - 20 = 8 + d.payload.length := by omega
  obtain ⟨ipCk, hip, hipCk⟩ :=
    inetChecksum_spec (ipHeader d.srcIp d.dstIp (20 + 8 + d.payload.length) 0) (by
      rw [length_ipHeader]
      omega)
  obtain ⟨udpCk, hudp, hudpCk⟩ :=
    inetChecksum_spec (pseudoHeader d.srcIp d.dstIp (8 + d.payload.length) ++
      udpHeader d.srcPort d.dstPort (8 + d.payload.length) 0 ++ d.payload) (by
      rw [List.length_append, List.length_append, length_pseudoHeader, length_udpHeader]
      omega)
  refine ⟨ipCk.toNat, udpCk.toNat, ?_, hipCk, ?_⟩
  · rw [build, buildUdpFrame, if_neg (by omega)]
    simp only
    rw [hudpLen, hip, Option.bind_some, hudp, Option.map_some, flatten_fields]
  · have hsum : wordSum (pseudoHeader d.srcIp d.dstIp (8 + d.payload.length) ++
        udpHeader d.srcPort d.dstPort (8 + d.payload.length) 0 ++ d.payload) = d.udpWords := by
      rw [List.append_assoc, wordSum_append 6 rfl, wordSum_append 4 rfl, udpWords,
        wordSum_pseudoHeader _ _ (by omega), wordSum_udpHeader _ _ (by omega) (by decide)]
      omega
    rw [hudpCk, hsum]

theorem be16At?_udpChecksum (ipCk : Nat) {udpCk : Nat} (h : udpCk < 65536) :
    be16At? (d.fields ipCk udpCk).flatten 40 = some udpCk :=
  be16At?_flatten (k := 15) rfl (length_take_fields ipCk udpCk (by decide)) h

theorem wordSum_ipHeader_pos (ipLen : Nat) :
    0 < wordSum (ipHeader d.srcIp d.dstIp ipLen 0) := by
  have h : wordSum (ipHeader d.srcIp d.dstIp ipLen 0) =
      ofBe16 0x45 0x00 + wordSum ((ipHeader d.srcIp d.dstIp ipLen 0).drop 2) := rfl
  have hversion : 0 < ofBe16 0x45 0x00 := by decide
  omega

theorem udpWords_pos : 0 < d.udpWords := by
  rw [udpWords]
  omega

variable {ipCk udpCk : Nat}

theorem ipSum_fields
    (hip : ipCk = 65535 - fold (wordSum (ipHeader d.srcIp d.dstIp (20 + 8 + d.payload.length) 0))) :
    fold (wordSum (((d.fields ipCk udpCk).flatten.drop 14).take 20)) = 65535 := by
  have hheader : ((d.fields ipCk udpCk).flatten.drop 14).take 20 =
      ipHeader d.srcIp d.dstIp (20 + 8 + d.payload.length) ipCk := by
    rw [flatten_fields, List.append_assoc, List.append_assoc, List.drop_left', List.take_left']
    · rfl
    · rw [List.length_append, List.length_append, Vector.length_toList, Vector.length_toList]
      rfl
  rw [hheader, wordSum_ipHeader _ _ _ (by omega), hip]
  exact fold_add_complement (wordSum_ipHeader_pos _)

theorem udpSum_fields (h : d.payload.length ≤ maxUdpPayload)
    (hudp : udpCk = 65535 - fold d.udpWords) :
    fold (wordSum (pseudoHeader d.srcIp d.dstIp ((d.fields ipCk udpCk).flatten.length - 34) ++
      (d.fields ipCk udpCk).flatten.drop 34)) = 65535 := by
  have hmax : maxUdpPayload = 65507 := rfl
  have hlen : (d.fields ipCk udpCk).flatten.length - 34 = 8 + d.payload.length := by
    rw [length_fields]
    omega
  have hsegment : (d.fields ipCk udpCk).flatten.drop 34 =
      udpHeader d.srcPort d.dstPort (8 + d.payload.length) udpCk ++ d.payload := by
    rw [flatten_fields, List.append_assoc, List.drop_left']
    rw [List.length_append, List.length_append, List.length_append, Vector.length_toList,
      Vector.length_toList, length_ipHeader]
    rfl
  have hsum : wordSum (pseudoHeader d.srcIp d.dstIp (8 + d.payload.length) ++
      (udpHeader d.srcPort d.dstPort (8 + d.payload.length) udpCk ++ d.payload)) =
      d.udpWords + udpCk := by
    rw [wordSum_append 6 rfl, wordSum_append 4 rfl, udpWords,
      wordSum_pseudoHeader _ _ (by omega), wordSum_udpHeader _ _ (by omega) (by omega)]
    omega
  rw [hlen, hsegment, hsum, hudp]
  exact fold_add_complement udpWords_pos

/-- With the complements in it a frame is valid, unless the UDP checksum is zero. -/
theorem valid_fields (h : d.payload.length ≤ maxUdpPayload)
    (hip : ipCk = 65535 - fold (wordSum (ipHeader d.srcIp d.dstIp (20 + 8 + d.payload.length) 0)))
    (hudp : udpCk = 65535 - fold d.udpWords) (hne : udpCk ≠ 0) :
    d.Valid (d.fields ipCk udpCk).flatten := by
  have hmax : maxUdpPayload = 65507 := rfl
  have hlen := length_fields (d := d) ipCk udpCk
  have hat {k : Nat} (hk : k ≤ 16) := length_take_fields (d := d) ipCk udpCk hk
  exact
    { dstMac := slice?_flatten (k := 0) rfl (hat (by decide))
        (by rw [Nat.zero_add, d.dstMac.length_toList])
      srcMac := slice?_flatten (k := 1) rfl (hat (by decide))
        (by rw [d.srcMac.length_toList])
      etherType := slice?_flatten (k := 2) rfl (hat (by decide)) rfl
      version := getElem?_flatten (k := 3) rfl (hat (by decide))
      totalLength := by
        have htotal : 42 + d.payload.length - 14 = 20 + 8 + d.payload.length := by omega
        rw [hlen, htotal]
        exact be16At?_flatten (k := 4) rfl (hat (by decide)) (by omega)
      protocol := getElem?_flatten (k := 8) rfl (hat (by decide))
      srcIp := slice?_flatten (k := 10) rfl (hat (by decide)) rfl
      dstIp := slice?_flatten (k := 11) rfl (hat (by decide)) rfl
      srcPort := be16At?_flatten (k := 12) rfl (hat (by decide)) d.srcPort.toNat_lt
      dstPort := be16At?_flatten (k := 13) rfl (hat (by decide)) d.dstPort.toNat_lt
      udpLength := by
        have hsegment : 42 + d.payload.length - 34 = 8 + d.payload.length := by omega
        rw [hlen, hsegment]
        exact be16At?_flatten (k := 14) rfl (hat (by decide)) (by omega)
      payload := slice?_flatten (k := 16) rfl (hat (by decide)) hlen.symm
      ipSum := ipSum_fields hip
      udpSum := udpSum_fields h hudp
      udpChecksum := by
        rw [be16At?_udpChecksum ipCk (by omega)]
        exact fun hzero => hne (Option.some.inj hzero) }

theorem complement_eq_zero_iff : 65535 - fold d.udpWords = 0 ↔ 65535 ∣ d.udpWords := by
  have hlt := fold_lt d.udpWords
  have hpos := udpWords_pos (d := d)
  have hones := fold_eq_allOnes_iff d.udpWords
  omega

/-- The frame is valid unless the words of the UDP checksum come to a multiple of 65535: then the
checksum is zero, and is sent as zero. -/
theorem buildsValid_iff (d : Datagram) :
    d.BuildsValid ↔ (d.payload.length ≤ maxUdpPayload → ¬65535 ∣ d.udpWords) := by
  by_cases h : d.payload.length ≤ maxUdpPayload
  · obtain ⟨ipCk, udpCk, hbuild, hip, hudp⟩ := build_of_le h
    have hcheck := complement_eq_zero_iff (d := d)
    rw [← hudp] at hcheck
    constructor
    · rintro ⟨result, hresult, -, hvalid⟩ - hdvd
      rw [hbuild] at hresult
      have hframe := hvalid _ (Option.some.inj hresult).symm
      apply hframe.udpChecksum
      rw [be16At?_udpChecksum ipCk (by omega), hcheck.mpr hdvd]
    · intro hcond
      refine ⟨_, hbuild, ⟨nofun, fun hlong => absurd h (Nat.not_le_of_lt hlong)⟩, ?_⟩
      intro frame hframe
      rw [← Option.some.inj hframe]
      exact valid_fields h hip hudp fun hzero => hcond h (hcheck.mp hzero)
  · have hlong := Nat.lt_of_not_le h
    refine ⟨fun _ hshort => absurd hshort h, fun _ => ?_⟩
    exact ⟨none, build_of_lt hlong, ⟨fun _ => hlong, fun _ => rfl⟩, nofun⟩

/-- A datagram whose UDP checksum comes out as zero. -/
def zeroChecksum : Datagram where
  srcMac := #v[0x02, 0x11, 0x22, 0x33, 0x44, 0x55]
  dstMac := #v[0xdc, 0xa6, 0x32, 0x01, 0x02, 0x03]
  srcIp := ⟨192, 168, 99, 1⟩
  dstIp := ⟨192, 168, 99, 100⟩
  srcPort := 6969
  dstPort := 45678
  payload := [0xea, 0x7b]

theorem not_buildsValid_zeroChecksum : ¬zeroChecksum.BuildsValid := by
  have hwords : zeroChecksum.udpWords = 262140 := by decide
  obtain ⟨ipCk, udpCk, hbuild, -, hudp⟩ := build_of_le (d := zeroChecksum) (by decide)
  rintro ⟨result, hresult, -, hvalid⟩
  rw [hbuild] at hresult
  have hframe := hvalid _ (Option.some.inj hresult).symm
  have hzero : udpCk = 0 := by
    rw [hudp, complement_eq_zero_iff, hwords]
    decide
  apply hframe.udpChecksum
  rw [hzero]
  exact be16At?_udpChecksum ipCk (by decide)

end Datagram

end Frame

end Netbootd

end Paniolo
