import Paniolo.Netbootd.Dhcp.Packet
import Paniolo.Netbootd.Http

/-!
# The advertised boot URL

The DHCP server advertises `http_boot_url(host, port, boot_file)` and the HTTP
server is asked for its path. The URL is built without escaping and taken apart
with the query cut off and `%XX` decoded, so the request finds the boot file in
every tree exactly when the name holds none of what the server treats
specially: white space, `?`, `#` or an escape.
-/

namespace Paniolo

namespace Netbootd

namespace Http

open Text

/-- The path of an `http://` URL: from the first slash of what follows the scheme. -/
def urlPath (url : String) : List Char :=
  (url.toList.drop "http://".toList.length).dropWhile (· ≠ '/')

/-- The bytes of a GET request for `target` with the given header lines. -/
def request (target : List Char) (headers : List (List UInt8)) : List UInt8 :=
  Utf8.encode ("GET ".toList ++ target ++ " HTTP/1.1\r\n".toList) ++
    (headers.map (· ++ [13, 10])).flatten ++ [13, 10]

/-- The file the server sends for a GET request, if it sends one. -/
def get (t : FileTree) (root : List Name) (target : List Char) (headers : List (List UInt8)) :
    Option (List Name) :=
  match readHead (request target headers) with
  | .ok (some (head, _)) =>
      match answer t root head with
      | .serveFile path => some path
      | _ => none
  | _ => none

/-- `file` names the existing regular file `p` under the served root. -/
structure Names (t : FileTree) (root : List Name) (file : List Char) (p : List Name) : Prop where
  canon : t.canonicalize (root ++ components file) = some p
  isFile : t.isFile p = true
  inside : ∃ r, t.canonicalize root = some r ∧ r <+: p

/-- A byte string with a `%` before two hexadecimal digits. -/
def hasEscape : List UInt8 → Bool
  | b :: hi :: lo :: bs => (escaped b hi lo).isSome || hasEscape (hi :: lo :: bs)
  | _ => false

/-- A character at which the server cuts a request target. -/
def isCut (c : Char) : Bool := isWhitespace c || c == '?' || c == '#'

/-- A name that is its own escaped form. -/
def Plain (file : List Char) : Prop :=
  (∀ c ∈ file, isCut c = false) ∧ hasEscape (Utf8.encode file) = false

instance (file : List Char) : Decidable (Plain file) := inferInstanceAs (Decidable (_ ∧ _))

section Decode

theorem percentDecodeBytes_eq {bs : List UInt8} (h : hasEscape bs = false) :
    percentDecodeBytes bs = bs := by
  induction bs using percentDecodeBytes.induct with
  | case1 | case2 | case3 => rfl
  | case4 b hi lo bs v hv ih =>
      rw [hasEscape, hv] at h
      cases h
  | case5 b hi lo bs hv ih =>
      rw [hasEscape, hv, Option.isSome_none, Bool.false_or] at h
      rw [percentDecodeBytes, hv]
      dsimp only
      rw [ih h]

theorem percentDecode_eq {s : List Char} (h : hasEscape (Utf8.encode s) = false) :
    percentDecode s = s := by
  rw [percentDecode, percentDecodeBytes_eq h]
  have := Utf8.decode_encode_append s []
  rw [List.append_nil] at this
  rw [this]
  exact List.append_nil s

/-- The characters an escape is made of. -/
def escapeWeight (c : Char) : Nat :=
  if c ∈ "%0123456789abcdefABCDEF".toList then 1 else 0

theorem escapeWeight_le (c : Char) : escapeWeight c ≤ 1 := by
  rw [escapeWeight]
  split_ifs <;> simp

theorem escapeWeight_eq_zero (c : Char) (hc : c.toNat = 0 ∨ 0x80 ≤ c.toNat) :
    escapeWeight c = 0 := by
  rw [escapeWeight, if_neg]
  intro hm
  have hall : ("%0123456789abcdefABCDEF".toList.all fun d =>
      decide ¬(d.toNat = 0 ∨ 0x80 ≤ d.toNat)) = true := by decide
  exact of_decide_eq_true (List.all_eq_true.mp hall c hm) hc

theorem escapeWeight_of_hexDigit {b : UInt8} {n : Nat} (h : hexDigit b = some n) :
    escapeWeight (Char.ofNat b.toNat) = 1 := by
  have hall : ∀ i < 256, (hexDigit (UInt8.ofNat i)).isSome →
      escapeWeight (Char.ofNat i) = 1 := by decide +kernel
  have hb : UInt8.ofNat b.toNat = b := UInt8.ofNat_toNat
  exact hall b.toNat b.toNat_lt (by rw [hb, h]; rfl)

theorem escapeWeight_of_escaped {b hi lo v : UInt8} (h : escaped b hi lo = some v) :
    escapeWeight (Char.ofNat b.toNat) = 1 ∧ escapeWeight (Char.ofNat hi.toNat) = 1 ∧
      escapeWeight (Char.ofNat lo.toNat) = 1 := by
  rw [escaped] at h
  split_ifs at h with hb
  cases hhi : hexDigit hi with
  | none =>
      rw [hhi] at h
      cases h
  | some x =>
      cases hlo : hexDigit lo with
      | none =>
          rw [hhi, hlo] at h
          cases h
      | some y =>
          refine ⟨?_, escapeWeight_of_hexDigit hhi, escapeWeight_of_hexDigit hlo⟩
          rw [hb]
          decide

/-- The weight of a byte string. -/
def byteWeight (bs : List UInt8) : Nat := (bs.map fun b => escapeWeight (Char.ofNat b.toNat)).sum

theorem byteWeight_cons (b : UInt8) (bs : List UInt8) :
    byteWeight (b :: bs) = escapeWeight (Char.ofNat b.toNat) + byteWeight bs := by
  rw [byteWeight, List.map_cons, List.sum_cons]
  rfl

theorem byteWeight_percentDecodeBytes (bs : List UInt8) :
    byteWeight (percentDecodeBytes bs) ≤ byteWeight bs ∧
      (hasEscape bs = true → byteWeight (percentDecodeBytes bs) < byteWeight bs) := by
  induction bs using percentDecodeBytes.induct with
  | case1 | case2 | case3 => exact ⟨Nat.le_refl _, fun h => by cases h⟩
  | case4 b hi lo bs v hv ih =>
      have hw := escapeWeight_of_escaped hv
      have hle := escapeWeight_le (Char.ofNat v.toNat)
      rw [percentDecodeBytes, hv]
      dsimp only
      rw [byteWeight_cons, byteWeight_cons, byteWeight_cons, byteWeight_cons]
      omega
  | case5 b hi lo bs hv ih =>
      rw [percentDecodeBytes, hv, hasEscape, hv, Option.isSome_none, Bool.false_or]
      dsimp only
      rw [byteWeight_cons, byteWeight_cons b]
      exact ⟨Nat.add_le_add_left ih.1 _, fun h => Nat.add_lt_add_left (ih.2 h) _⟩

/-- Decoding a text with an escape in it loses some of the characters that
escapes are made of. -/
theorem weight_percentDecode_lt {s : List Char} (h : hasEscape (Utf8.encode s) = true) :
    ((percentDecode s).map escapeWeight).sum < (s.map escapeWeight).sum := by
  calc
    ((percentDecode s).map escapeWeight).sum
        ≤ byteWeight (percentDecodeBytes (Utf8.encode s)) :=
      Utf8.weight_decode_le escapeWeight_eq_zero _
    _ < byteWeight (Utf8.encode s) := (byteWeight_percentDecodeBytes _).2 h
    _ = (s.map escapeWeight).sum := Utf8.weight_encode escapeWeight_eq_zero s

end Decode

section Request

theorem eq_lineFeed_of_isTerminated {raw : List UInt8} {b : UInt8}
    (h : isTerminated (raw ++ [b]) = true) : b = 10 := by
  have hlast (l : List UInt8) (hl : l ++ [10] <:+ raw ++ [b]) : b = 10 := by
    obtain ⟨pre, hpre⟩ := hl
    rw [← List.append_assoc] at hpre
    exact (List.append_singleton_inj.mp hpre).2.symm
  rw [isTerminated, Bool.or_eq_true, List.isSuffixOf_iff_suffix, List.isSuffixOf_iff_suffix] at h
  rcases h with h | h
  · exact hlast [13, 10, 13] h
  · exact hlast [10] h

/-- The read loop stops at the latest where `xs` ends with a blank line, with
a head that ends with a line feed. -/
theorem readRaw_spec {xs : List UInt8} (ys raw : List UInt8) (hne : xs ≠ [])
    (hlen : (raw ++ xs).length ≤ maxHeadBytes) (hend : isTerminated (raw ++ xs) = true) :
    ∃ pre rest, readRaw raw (xs ++ ys) = .ok (some (raw ++ (pre ++ [10]), rest)) ∧
      pre ++ [10] <+: xs := by
  induction xs generalizing raw with
  | nil => exact absurd rfl hne
  | cons b xs ih =>
      have hsplit : raw ++ b :: xs = (raw ++ [b]) ++ xs := by rw [List.append_assoc]; rfl
      rw [hsplit] at hlen hend
      have hshort : ¬(raw ++ [b]).length > maxHeadBytes := by
        rw [List.length_append] at hlen
        omega
      rw [List.cons_append, readRaw, if_neg hshort]
      by_cases ht : isTerminated (raw ++ [b]) = true
      · obtain rfl := eq_lineFeed_of_isTerminated ht
        rw [if_pos ht]
        exact ⟨[], xs ++ ys, rfl, xs, rfl⟩
      · rw [if_neg ht]
        have hxs : xs ≠ [] := by
          rintro rfl
          rw [List.append_nil] at hend
          exact ht hend
        obtain ⟨pre, rest, hread, hpre⟩ := ih _ hxs hlen hend
        refine ⟨b :: pre, rest, ?_, ?_⟩
        · rw [hread, List.append_assoc]
          rfl
        · rw [List.cons_append]
          exact (List.prefix_cons_inj b).mpr hpre

theorem header_target (head : Head) (line : List Char) :
    (head.header line).method = head.method ∧ (head.header line).target = head.target := by
  rw [Head.header]
  split
  · exact ⟨rfl, rfl⟩
  · dsimp only
    split_ifs <;> exact ⟨rfl, rfl⟩

theorem foldl_header_target (ls : List (List Char)) (head : Head) :
    (ls.foldl Head.header head).method = head.method ∧
      (ls.foldl Head.header head).target = head.target := by
  induction ls generalizing head with
  | nil => exact ⟨rfl, rfl⟩
  | cons line ls ih =>
      obtain ⟨hm, ht⟩ := header_target head line
      obtain ⟨ihm, iht⟩ := ih (head.header line)
      exact ⟨ihm.trans hm, iht.trans ht⟩

/-- The request line as it is read: a target in which white space stands is cut there. -/
theorem parse_requestLine {y : List Char} (hy : '\n' ∉ y) {c : Char} (hc : isWhitespace c = false)
    (tail : List UInt8) :
    (Head.parse (Utf8.encode ("GET ".toList ++ (c :: y)) ++ 10 :: tail)).method = "GET".toList ∧
      (Head.parse (Utf8.encode ("GET ".toList ++ (c :: y)) ++ 10 :: tail)).target =
        (c :: y).takeWhile fun c => !isWhitespace c := by
  have hline : '\n' ∉ "GET ".toList ++ (c :: y) := by
    rw [List.mem_append, List.mem_cons]
    rintro (h | rfl | h)
    · exact absurd h (by decide)
    · exact absurd hc (by decide)
    · exact hy h
  have hdecode : Utf8.decode (Utf8.encode ("GET ".toList ++ (c :: y)) ++ 10 :: tail) =
      ("GET ".toList ++ (c :: y)) ++ '\n' :: Utf8.decode tail := by
    rw [Utf8.decode_encode_append]
    exact congrArg _ (Utf8.decode_encode_append ['\n'] tail)
  have hwords : splitWhitespace (stripCr ("GET ".toList ++ (c :: y))) =
      "GET".toList :: splitWhitespace (stripCr (c :: y)) := by
    rw [stripCr_append _ (List.cons_ne_nil _ _)]
    have hget : IsWord "GET".toList := isWord_of_all (by decide) (by decide)
    exact splitWhitespace_cons "GET".toList hget.1 hget.2 _
  obtain ⟨y', hy'⟩ : ∃ y', stripCr (c :: y) = c :: y' := by
    cases y with
    | nil =>
        have hcr : c ≠ '\r' := by
          rintro rfl
          exact absurd hc (by decide)
        exact ⟨[], by rw [stripCr, if_neg]; simpa using hcr⟩
    | cons d y => exact ⟨_, stripCr_append [c] (List.cons_ne_nil d y)⟩
  have hfirst : (splitWhitespace (stripCr (c :: y)))[0]? =
      some ((c :: y).takeWhile fun c => !isWhitespace c) := by
    rw [hy', splitWhitespace_head hc, ← hy', takeWhile_stripCr]
  obtain ⟨hm, ht⟩ := foldl_header_target
    ((lines (("GET ".toList ++ (c :: y)) ++ '\n' :: Utf8.decode tail)).drop 1)
    (Head.ofRequestLine (stripCr ("GET ".toList ++ (c :: y))))
  have hparse : Head.parse (Utf8.encode ("GET ".toList ++ (c :: y)) ++ 10 :: tail) =
      ((lines (("GET ".toList ++ (c :: y)) ++ '\n' :: Utf8.decode tail)).drop 1).foldl Head.header
        (Head.ofRequestLine (stripCr ("GET ".toList ++ (c :: y)))) := by
    rw [Head.parse, hdecode, lines_head hline]
    rfl
  rw [hparse, hm, ht, Head.ofRequestLine, hwords]
  refine ⟨rfl, ?_⟩
  rw [List.getElem?_cons_succ, hfirst]
  rfl

theorem lineFeed_notMem_encode {cs : List Char} (h : '\n' ∉ cs) : (10 : UInt8) ∉ Utf8.encode cs := by
  intro hm
  obtain ⟨c, hc, hb⟩ := List.mem_flatMap.mp hm
  rcases Utf8.utf8EncodeChar_cases c with ⟨hlt, he⟩ | ⟨-, he⟩
  · rw [he, List.mem_singleton] at hb
    have hn := congrArg UInt8.toNat hb
    rw [UInt8.toNat_ofNat', Nat.mod_eq_of_lt (by omega)] at hn
    have : c = '\n' := by
      rw [← Char.ofNat_toNat c, ← hn]
      rfl
    exact h (this ▸ hc)
  · exact absurd (he 10 hb) (by decide)

theorem isTerminated_request (target : List Char) (headers : List (List UInt8)) :
    isTerminated (request target headers) = true := by
  have hline : ∃ u, Utf8.encode ("GET ".toList ++ target ++ " HTTP/1.1\r\n".toList) ++
      (headers.map (· ++ [13, 10])).flatten = u ++ [13, 10] := by
    rcases List.eq_nil_or_concat headers with rfl | ⟨hs, h, rfl⟩
    · refine ⟨Utf8.encode ("GET ".toList ++ target ++ " HTTP/1.1".toList), ?_⟩
      have hcrlf : "GET ".toList ++ target ++ " HTTP/1.1\r\n".toList =
          ("GET ".toList ++ target ++ " HTTP/1.1".toList) ++ ['\r', '\n'] := by
        rw [List.append_assoc ("GET ".toList ++ target)]
        rfl
      rw [List.map_nil, List.flatten_nil, List.append_nil, hcrlf, Utf8.encode_append]
      rfl
    · rw [List.concat_eq_append, List.map_append, List.flatten_append, List.map_singleton,
        List.flatten_singleton, ← List.append_assoc, ← List.append_assoc]
      exact ⟨_, rfl⟩
  obtain ⟨u, hu⟩ := hline
  rw [request, hu, isTerminated, Bool.or_eq_true, List.isSuffixOf_iff_suffix]
  left
  exact ⟨u, by rw [List.append_assoc]; rfl⟩

/-- A prefix that ends with a separator reaches past the first one. -/
theorem exists_of_prefix_of_notMem {α : Type*} {sep : α} {pre a b : List α}
    (h : pre ++ [sep] <+: a ++ sep :: b) (ha : sep ∉ a) : ∃ c, pre ++ [sep] = a ++ sep :: c := by
  induction a generalizing pre with
  | nil =>
      cases pre with
      | nil => exact ⟨[], rfl⟩
      | cons x pre =>
          rw [List.cons_append, List.nil_append, List.cons_prefix_cons] at h
          exact ⟨pre ++ [sep], by rw [h.1]; rfl⟩
  | cons x a ih =>
      rw [List.mem_cons, not_or] at ha
      cases pre with
      | nil =>
          rw [List.nil_append, List.cons_append, List.cons_prefix_cons] at h
          exact absurd h.1 ha.1
      | cons y pre =>
          rw [List.cons_append, List.cons_append, List.cons_prefix_cons] at h
          obtain ⟨c, hc⟩ := ih h.2 ha.2
          exact ⟨c, by rw [List.cons_append, hc, h.1]; rfl⟩

/-- The server reads the request for a path as a GET for the path up to its
first white space. -/
theorem readHead_request (file : List Char) (headers : List (List UInt8))
    (hlen : (request ('/' :: file) headers).length ≤ maxHeadBytes) :
    ∃ head rest, readHead (request ('/' :: file) headers) = .ok (some (head, rest)) ∧
      head.method = "GET".toList ∧
      head.target = ('/' :: file).takeWhile fun c => !isWhitespace c := by
  -- the first line ends at its own line feed or at one in the name
  obtain ⟨line, z, hz, hline⟩ := List.eq_append_cons_of_mem
    (List.mem_append_right file (by decide : '\n' ∈ " HTTP/1.1\r\n".toList))
  have hwords : ('/' :: line).takeWhile (fun c => !isWhitespace c) =
      ('/' :: file).takeWhile fun c => !isWhitespace c := by
    calc
      ('/' :: line).takeWhile (fun c => !isWhitespace c)
          = ('/' :: line ++ '\n' :: z).takeWhile fun c => !isWhitespace c :=
        (takeWhile_append_of_neg _ (by decide) z).symm
      _ = ('/' :: file ++ " HTTP/1.1\r\n".toList).takeWhile fun c => !isWhitespace c := by
        rw [List.cons_append, ← hz]
        rfl
      _ = ('/' :: file).takeWhile fun c => !isWhitespace c :=
        takeWhile_append_of_neg _ (by decide) _
  obtain ⟨tail, htail⟩ : ∃ tail, request ('/' :: file) headers =
      Utf8.encode ("GET ".toList ++ '/' :: line) ++ 10 :: tail := by
    refine ⟨Utf8.encode z ++ (headers.map (· ++ [13, 10])).flatten ++ [13, 10], ?_⟩
    have hfirst : "GET ".toList ++ '/' :: file ++ " HTTP/1.1\r\n".toList =
        ("GET ".toList ++ '/' :: line) ++ '\n' :: z := by
      rw [List.append_assoc, List.cons_append, hz, List.append_assoc, List.cons_append]
    rw [request, hfirst, Utf8.encode_append, Utf8.encode_cons '\n', List.append_assoc,
      List.append_assoc, List.append_assoc, List.append_assoc]
    rfl
  have hlf : (10 : UInt8) ∉ Utf8.encode ("GET ".toList ++ '/' :: line) := by
    apply lineFeed_notMem_encode
    rw [List.mem_append, List.mem_cons]
    rintro (h | h | h)
    · exact absurd h (by decide)
    · exact absurd h (by decide)
    · exact hline h
  have hne : request ('/' :: file) headers ≠ [] := by
    rw [htail]
    exact List.append_ne_nil_of_right_ne_nil _ (List.cons_ne_nil _ _)
  obtain ⟨pre, rest, hread, hpre⟩ := readRaw_spec [] [] hne hlen
    (isTerminated_request ('/' :: file) headers)
  rw [htail] at hpre
  obtain ⟨tail', htail'⟩ := exists_of_prefix_of_notMem hpre hlf
  obtain ⟨hmethod, htarget⟩ := parse_requestLine hline (by decide : isWhitespace '/' = false) tail'
  refine ⟨Head.parse (pre ++ [10]), rest, ?_, ?_, ?_⟩
  · rw [List.append_nil, List.nil_append] at hread
    rw [readHead, hread]
    rfl
  · rw [htail', hmethod]
  · rw [htail', htarget, hwords]

end Request

section Url

open Dhcp

theorem slash_notMem_toString (n : Nat) : '/' ∉ (toString n).toList := by
  rw [Nat.toString_eq_ofList_toDigits, String.toList_ofList]
  intro h
  exact absurd (Nat.isDigit_of_mem_toDigits (by decide) (by decide) h) (by decide)

theorem slash_notMem_text (ip : Ipv4) : '/' ∉ ip.text.toList := by
  have hdot : '/' ∉ ".".toList := by decide
  simp only [Ipv4.text, String.toList_append, List.mem_append, slash_notMem_toString, hdot,
    or_self, not_false_eq_true]

/-- The path of the boot URL is the boot file's name after one slash. -/
theorem urlPath_httpBootUrl (hostIp : Ipv4) (port : Nat) (bootFile : String) :
    urlPath (httpBootUrl hostIp port bootFile) = '/' :: bootFile.toList.dropWhile (· == '/') := by
  have hdrop {a b : List Char} (ha : '/' ∉ a) :
      (a ++ '/' :: b).dropWhile (· ≠ '/') = '/' :: b := by
    rw [List.dropWhile_append_of_pos]
    · rfl
    · intro c hc
      rw [decide_eq_true_eq]
      rintro rfl
      exact ha hc
  rw [urlPath, httpBootUrl]
  split_ifs
  · simp only [String.toList_append, String.toList_ofList, List.append_assoc]
    rw [List.drop_left]
    exact hdrop (slash_notMem_text hostIp)
  · simp only [String.toList_append, String.toList_ofList, List.append_assoc]
    rw [List.drop_left, ← List.append_assoc, ← List.append_assoc]
    apply hdrop
    have hcolon : '/' ∉ ":".toList := by decide
    simp only [List.mem_append, slash_notMem_text, slash_notMem_toString, hcolon, or_self,
      not_false_eq_true]

end Url

section Resolve

variable {t : FileTree} {root : List Name}

/-- What a GET for a path is resolved to. -/
theorem get_eq (file : List Char) (headers : List (List UInt8))
    (hlen : (request ('/' :: file) headers).length ≤ maxHeadBytes) :
    get t root ('/' :: file) headers =
      (resolve t root (percentDecode ('/' :: file.takeWhile fun c => !isCut c))).filter
        t.isFile := by
  obtain ⟨head, rest, hread, hmethod, htarget⟩ := readHead_request file headers hlen
  have hcut : (('/' :: file).takeWhile fun c => !isWhitespace c).takeWhile
      (fun c => c ≠ '?' && c ≠ '#') = '/' :: file.takeWhile fun c => !isCut c := by
    rw [List.takeWhile_takeWhile, List.takeWhile_cons_of_pos (by decide)]
    congr 2
    funext c
    rw [isCut]
    by_cases h1 : c = '?'
    · simp [h1]
    · by_cases h2 : c = '#'
      · simp [h2]
      · rw [beq_eq_false_iff_ne.mpr h1, beq_eq_false_iff_ne.mpr h2]
        simp [h1, h2]
  have horigin : originForm (('/' :: file).takeWhile fun c => !isWhitespace c) =
      ('/' :: file).takeWhile fun c => !isWhitespace c := by
    rw [List.takeWhile_cons_of_pos (by decide)]
    rfl
  have hmiss : eqIgnoreAsciiCase "GET".toList "GET".toList = true := by decide
  rw [get, hread]
  dsimp only
  rw [answer, hmethod, hmiss, htarget, resolveTarget, horigin, hcut]
  cases (resolve t root (percentDecode ('/' :: file.takeWhile fun c => !isCut c))).filter
      t.isFile <;> rfl

theorem canonicalize_of_resolve {file : List Char} {p : List Name}
    (h : resolve t root file = some p) :
    t.canonicalize (root ++ components (file.dropWhile (· == '/'))) = some p := by
  rw [resolve, Option.bind_eq_bind, Option.bind_eq_some_iff] at h
  obtain ⟨canon, hcanon, h⟩ := h
  rw [Option.bind_eq_some_iff] at h
  obtain ⟨rootCanon, -, h⟩ := h
  split_ifs at h
  rw [hcanon, h]

theorem hasEscape_slash (file : List Char) :
    hasEscape (Utf8.encode ('/' :: file)) = hasEscape (Utf8.encode file) := by
  have hslash : Utf8.encode ('/' :: file) = 0x2F :: Utf8.encode file := rfl
  rw [hslash]
  rcases Utf8.encode file with _ | ⟨b, _ | ⟨c, bs⟩⟩
  · rfl
  · rfl
  · rw [hasEscape, escaped, if_neg (by decide), Option.isSome_none, Bool.false_or]

theorem takeWhile_eq_self {file : List Char} (h : ∀ c ∈ file, isCut c = false) :
    (file.takeWhile fun c => !isCut c) = file := by
  rw [List.takeWhile_eq_self_iff]
  intro c hc
  rw [h c hc]
  rfl

/-- A plain relative name is resolved to the file it names. -/
theorem get_of_plain {file : List Char} {p : List Name} {headers : List (List UInt8)}
    (hrel : file.head? ≠ some '/') (hplain : Plain file) (hp : Names t root file p)
    (hlen : (request ('/' :: file) headers).length ≤ maxHeadBytes) :
    get t root ('/' :: file) headers = some p := by
  obtain ⟨r, hr, hpre⟩ := hp.inside
  have hescape : hasEscape (Utf8.encode ('/' :: file)) = false :=
    (hasEscape_slash _).trans hplain.2
  have hdrop : ('/' :: file).dropWhile (· == '/') = file := by
    rw [List.dropWhile_cons_of_pos (by decide)]
    cases file with
    | nil => rfl
    | cons c file =>
        apply List.dropWhile_cons_of_neg
        intro h
        exact hrel (congrArg some (eq_of_beq h))
  rw [get_eq file headers hlen, takeWhile_eq_self hplain.1, percentDecode_eq hescape, resolve,
    hdrop, hp.canon, hr]
  dsimp only [Option.bind_eq_bind, Option.bind_some]
  rw [if_pos (List.isPrefixOf_iff_prefix.mpr hpre), Option.filter_some, if_pos hp.isFile]

end Resolve

section Single

/-- The tree that holds nothing but the file that `file` names. -/
theorem exists_only {file : List Char} (hup : ['.', '.'] ∉ components file)
    (hname : ∃ t root p, Names t root file p) :
    ∃ hne : FileTree.entries (components file) ≠ [],
      Names (FileTree.only (FileTree.entries (components file)) hne) [] file
        (FileTree.entries (components file)) := by
  obtain ⟨t, root, p, hp⟩ := hname
  obtain ⟨init, last, hlast⟩ : ∃ init last, components file = init ++ [last] := by
    obtain h | ⟨init, last, h⟩ := List.eq_nil_or_concat (components file)
    · exact absurd h (List.splitOnP_ne_nil _ _)
    · exact ⟨init, last, by rw [h, List.concat_eq_append]⟩
  have hnamed : FileTree.Named last := by
    have hcanon := hp.canon
    rw [hlast, ← List.append_assoc] at hcanon
    exact t.named_of_walk hp.isFile hcanon
  have hne : FileTree.entries (components file) ≠ [] := by
    rw [hlast]
    intro h
    have hmem : last ∈ FileTree.entries (init ++ [last]) :=
      List.mem_filter.mpr ⟨List.mem_append_right _ List.mem_cons_self, decide_eq_true hnamed⟩
    rw [h] at hmem
    cases hmem
  refine ⟨hne, ?_, FileTree.isFile_only hne, [], rfl, List.nil_prefix⟩
  rw [List.nil_append]
  generalize components file = path at *
  subst hlast
  exact FileTree.walk_only hne _ hup hnamed rfl

theorem sum_map_dropWhile_le (w : Char → Nat) (q : Char → Bool) (s : List Char) :
    ((s.dropWhile q).map w).sum ≤ (s.map w).sum :=
  ((List.dropWhile_sublist q).map w).sum_le_sum fun _ _ => Nat.zero_le _

/-- In that tree nothing lighter than the name leads to the file. -/
theorem weight_le_of_get {w : Char → Nat} (hslash : w '/' = 0) (hdot : w '.' = 0)
    {file : List Char} (hne : FileTree.entries (components file) ≠ [])
    {headers : List (List UInt8)}
    (hlen : (request ('/' :: file) headers).length ≤ maxHeadBytes)
    (h : get (FileTree.only (FileTree.entries (components file)) hne) [] ('/' :: file) headers =
      some (FileTree.entries (components file))) :
    (file.map w).sum ≤
      ((percentDecode ('/' :: file.takeWhile fun c => !isCut c)).map w).sum := by
  rw [get_eq file headers hlen, Option.filter_eq_some_iff] at h
  obtain ⟨h, -⟩ := h
  generalize percentDecode ('/' :: file.takeWhile fun c => !isCut c) = s at h ⊢
  have hcanon := canonicalize_of_resolve h
  calc
    (file.map w).sum = FileTree.weight w (components file) :=
      (FileTree.weight_components hslash file).symm
    _ = FileTree.weight w (FileTree.entries (components file)) :=
      (FileTree.weight_entries hdot _).symm
    _ ≤ FileTree.weight w (components (s.dropWhile (· == '/'))) :=
      FileTree.weight_walk_le _ (FileTree.node_only_ne_link hne) hcanon
    _ = ((s.dropWhile (· == '/')).map w).sum := FileTree.weight_components hslash _
    _ ≤ (s.map w).sum := sum_map_dropWhile_le w _ s

end Single

theorem length_encode_urlPath_le (url : String) :
    (Utf8.encode (urlPath url)).length ≤ (Utf8.encode url.toList).length := by
  have hsuffix : urlPath url <:+ url.toList :=
    (List.dropWhile_suffix _).trans (List.drop_suffix _ _)
  obtain ⟨a, ha⟩ := hsuffix
  have : (Utf8.encode url.toList).length =
      (Utf8.encode a).length + (Utf8.encode (urlPath url)).length := by
    rw [← ha, Utf8.encode_append, List.length_append]
  omega

theorem length_request_nil (target : List Char) :
    (request target []).length = (Utf8.encode target).length + 17 := by
  rw [request, Utf8.encode_append, Utf8.encode_append, List.map_nil, List.flatten_nil,
    List.append_nil, List.length_append, List.length_append, List.length_append]
  have h1 : (Utf8.encode "GET ".toList).length = 4 := by decide
  have h2 : (Utf8.encode " HTTP/1.1\r\n".toList).length = 11 := by decide
  rw [h1, h2, List.length_cons, List.length_singleton]
  omega

open Dhcp

/-- The advertised URL leads to the boot file, in every tree and root in which
the name is that of a regular file and for every request the server reads, if
and only if the name is plain. -/
theorem bootUrl_resolves_iff (hostIp : Ipv4) (port : Nat) (bootFile : String)
    (hrel : bootFile.toList.head? ≠ some '/') (hup : ['.', '.'] ∉ components bootFile.toList)
    (hname : ∃ t root p, Names t root bootFile.toList p)
    (hfit : (Utf8.encode (httpBootUrl hostIp port bootFile).toList).length ≤ 255) :
    (∀ t root p headers, Names t root bootFile.toList p →
      (request (urlPath (httpBootUrl hostIp port bootFile)) headers).length ≤ maxHeadBytes →
      get t root (urlPath (httpBootUrl hostIp port bootFile)) headers = some p) ↔
      Plain bootFile.toList := by
  have hpath := urlPath_httpBootUrl hostIp port bootFile
  have hfile : bootFile.toList.dropWhile (· == '/') = bootFile.toList := by
    cases hl : bootFile.toList with
    | nil => rfl
    | cons c l =>
        apply List.dropWhile_cons_of_neg
        intro h
        rw [hl] at hrel
        exact hrel (congrArg some (eq_of_beq h))
  have hlen : (request (urlPath (httpBootUrl hostIp port bootFile)) []).length ≤ maxHeadBytes := by
    rw [length_request_nil, maxHeadBytes]
    have := length_encode_urlPath_le (httpBootUrl hostIp port bootFile)
    omega
  rw [hpath, hfile] at hlen ⊢
  generalize bootFile.toList = file at *
  constructor
  · intro h
    obtain ⟨hne, hnames⟩ := exists_only hup hname
    have hget := h _ _ _ [] hnames hlen
    by_contra hplain
    by_cases hescape : hasEscape (Utf8.encode (file.takeWhile fun c => !isCut c)) = true
    · have hle := weight_le_of_get (w := escapeWeight) (by decide) (by decide) hne hlen hget
      have hlt := weight_percentDecode_lt (s := '/' :: file.takeWhile fun c => !isCut c)
        ((hasEscape_slash _).trans hescape)
      rw [List.map_cons, List.sum_cons] at hlt
      have hcut : ((file.takeWhile fun c => !isCut c).map escapeWeight).sum ≤
          (file.map escapeWeight).sum :=
        ((List.takeWhile_sublist _).map _).sum_le_sum fun _ _ => Nat.zero_le _
      have hslash : escapeWeight '/' = 0 := by decide
      omega
    · rw [Bool.not_eq_true] at hescape
      -- nothing is decoded, so a character at which the name is cut is missing
      obtain ⟨c, hc, hcut⟩ : ∃ c ∈ file, isCut c = true := by
        by_contra hall
        have hclean : ∀ c ∈ file, isCut c = false := fun c hc =>
          Bool.not_eq_true _ ▸ fun h => hall ⟨c, hc, h⟩
        rw [takeWhile_eq_self hclean] at hescape
        exact hplain ⟨hclean, hescape⟩
      have hslash : c ≠ '/' := by
        rintro rfl
        exact absurd hcut (by decide)
      have hdot : c ≠ '.' := by
        rintro rfl
        exact absurd hcut (by decide)
      have hle := weight_le_of_get (w := fun d => if d = c then 1 else 0) (if_neg hslash.symm)
        (if_neg hdot.symm) hne hlen hget
      rw [percentDecode_eq ((hasEscape_slash _).trans hescape)] at hle
      have hzero : (('/' :: file.takeWhile fun c => !isCut c).map
          fun d => if d = c then 1 else 0).sum = 0 := by
        apply List.sum_eq_zero
        intro n hn
        obtain ⟨d, hd, rfl⟩ := List.mem_map.mp hn
        apply if_neg
        rintro rfl
        rcases List.mem_cons.mp hd with h | h
        · exact hslash h
        · have := List.mem_takeWhile_imp h
          rw [hcut] at this
          cases this
      have hone : 1 ≤ (file.map fun d => if d = c then 1 else 0).sum :=
        List.single_le_sum (fun _ _ => Nat.zero_le _) _ (List.mem_map.mpr ⟨c, hc, if_pos rfl⟩)
      omega
  · intro hplain t root p headers hnames hlen
    exact get_of_plain hrel hplain hnames hlen

theorem bootUrl_resolves_iff_grub :
    (∀ t root p headers, Names t root "grub/grubaa64.efi".toList p →
      (request (urlPath (httpBootUrl ⟨192, 168, 99, 1⟩ 80 "grub/grubaa64.efi")) headers).length ≤
        maxHeadBytes →
      get t root (urlPath (httpBootUrl ⟨192, 168, 99, 1⟩ 80 "grub/grubaa64.efi")) headers =
        some p) ↔ Plain "grub/grubaa64.efi".toList := by
  apply bootUrl_resolves_iff
  · decide
  · decide
  · refine ⟨FileTree.only ["grub".toList, "grubaa64.efi".toList] (List.cons_ne_nil _ _), [],
      ["grub".toList, "grubaa64.efi".toList], ?_, ?_, [], rfl, List.nil_prefix⟩
    · decide
    · decide
  · decide +kernel

/-- A blank in the name ends the request target early: the file is not found. -/
theorem not_bootUrl_resolves_blank :
    "boot image.efi".toList.head? ≠ some '/' ∧ ['.', '.'] ∉ components "boot image.efi".toList ∧
      (Utf8.encode (httpBootUrl ⟨192, 168, 99, 1⟩ 80 "boot image.efi").toList).length ≤ 255 ∧
      ∃ t p, Names t [] "boot image.efi".toList p ∧
      (request (urlPath (httpBootUrl ⟨192, 168, 99, 1⟩ 80 "boot image.efi")) []).length ≤
        maxHeadBytes ∧
      get t [] (urlPath (httpBootUrl ⟨192, 168, 99, 1⟩ 80 "boot image.efi")) [] ≠ some p := by
  refine ⟨by decide, by decide, by decide +kernel,
    FileTree.only ["boot image.efi".toList] (List.cons_ne_nil _ _),
    ["boot image.efi".toList], ⟨?_, ?_, [], rfl, List.nil_prefix⟩, ?_, ?_⟩
  · decide
  · decide
  · decide +kernel
  · decide +kernel

end Http

end Netbootd

end Paniolo
