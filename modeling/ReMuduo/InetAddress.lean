import Mathlib.Data.List.Basic
import ReMuduo.CStrings
import ReMuduo.ServerViews

/-! # Addresses and their texts

An `InetAddress` wraps a `sockaddr_in`.  Its words are in network order: on the machines
that the program is built for, the byte that is sent first is the lowest one.  `toIp` and
`toIpPort` print an address into an array of 64 characters, and the constructor reads one with
`inet_addr`.  `inet_ntop` and `inet_addr` are those of the C library: the latter takes one to four
parts, each in decimal, octal or hexadecimal, and answers `INADDR_NONE` for any other text,
which the constructor does not look at.

What `toIp` prints is read back as the same address (`toIp_read_back`).  `toIpPort` stays within its
array, and the names of connections, which are built from its text, tell apart the connections
of all the servers of a process that were constructed with different addresses
(`connName_tells_apart`). -/
namespace ReMuduo

open CStrings

/-! ## Network order -/

/-- `htons`. -/
def htons (v : UInt16) : UInt16 := UInt16.ofNat (v.toNat % 256 * 256 + v.toNat / 256)

/-- `ntohs`. -/
def ntohs (v : UInt16) : UInt16 := htons v

/-- `htonl`, of a value below 2³². -/
def htonl (v : Nat) : Nat :=
  v % 256 * 16777216 + v / 256 % 256 * 65536 + v / 65536 % 256 * 256 + v / 16777216

/-- The byte `i` of a word in memory. -/
def byteAt (w : UInt32) (i : Nat) : Nat := (w.toNat >>> (8 * i)) % 256

theorem toNat_htons (v : UInt16) : (htons v).toNat = v.toNat % 256 * 256 + v.toNat / 256 := by
  have hv := v.toNat_lt
  refine UInt16.toNat_ofNat_of_lt' ?_
  have hsize : UInt16.size = 65536 := rfl
  omega

theorem htons_ntohs (v : UInt16) : htons (ntohs v) = v := by
  refine UInt16.toNat_inj.mp ?_
  have hv := v.toNat_lt
  rw [ntohs, toNat_htons, toNat_htons]
  omega

/-- Bits that do not overlap add up. -/
theorem or_shiftLeft {v i : Nat} (h : v < 1 <<< i) (u : Nat) : v ||| u <<< i = u <<< i + v := by
  rw [Nat.one_shiftLeft] at h
  rw [Nat.or_comm, Nat.shiftLeft_add_eq_or_of_lt h]

/-- The bytes of a word make it up. -/
theorem bytes_or (w : UInt32) :
    (byteAt w 0 ||| byteAt w 1 <<< 8 ||| byteAt w 2 <<< 16) ||| htonl (byteAt w 3) = w.toNat := by
  have hw : w.toNat < 4294967296 := w.toNat_lt
  have h0 : byteAt w 0 = w.toNat % 256 := rfl
  have h1 : byteAt w 1 = w.toNat / 256 % 256 := by rw [byteAt, Nat.shiftRight_eq_div_pow]
  have h2 : byteAt w 2 = w.toNat / 65536 % 256 := by rw [byteAt, Nat.shiftRight_eq_div_pow]
  have h3 : byteAt w 3 = w.toNat / 16777216 % 256 := by rw [byteAt, Nat.shiftRight_eq_div_pow]
  -- the last byte goes to the top of the word
  have htop : htonl (byteAt w 3) = byteAt w 3 <<< 24 := by
    rw [htonl, Nat.shiftLeft_eq]
    omega
  rw [htop, or_shiftLeft (i := 8), or_shiftLeft (i := 16), or_shiftLeft (i := 24)]
  · simp only [Nat.shiftLeft_eq]
    omega
  all_goals
    simp only [Nat.shiftLeft_eq]
    omega

/-! ## The C library -/

/-- `"%u.%u.%u.%u"` of the bytes of an address. -/
def dotted (w : UInt32) : List Char :=
  Nat.toDigits 10 (byteAt w 0) ++ '.' :: (Nat.toDigits 10 (byteAt w 1) ++ '.' ::
    (Nat.toDigits 10 (byteAt w 2) ++ '.' :: Nat.toDigits 10 (byteAt w 3)))

/-- `inet_ntop(AF_INET, &w, buf, sizeof buf)`: an array that is too small stays as it is. -/
def inet_ntop (w : UInt32) (buf : List Char) : List Char :=
  if buf.length ≤ (dotted w).length then buf else (sprintf buf 0 (dotted w)).getD buf

/-- `isspace`, of an ASCII character. -/
def isspace (c : Char) : Bool := c = ' ' || (9 ≤ c.toNat && c.toNat ≤ 13)

/-- The largest last part of an address, by the number of the parts before it. -/
def maxPart : Nat → Nat
  | 0 => 0xffffffff
  | 1 => 0xffffff
  | 2 => 0xffff
  | _ => 0xff

/-- The loop of `inet_aton`: `word` holds the parts that have been read, and `room` more may
be followed by a dot. -/
def inet_aton (room word : Nat) (text : List Char) : Option Nat :=
  if text.head?.any Char.isDigit then
    let val := (strtoul text).1
    let rest := (strtoul text).2
    if 0xffffffff < val then none
    else if rest.head? = some '.' then
      match room with
      | 0 => none
      | room + 1 =>
        if 0xff < val then none else inet_aton room (word ||| val <<< (8 * (2 - room))) rest.tail
    else if rest.head?.all isspace && decide (val ≤ maxPart (3 - room)) then
      some (word ||| htonl val)
    else none
  else none

/-- `INADDR_NONE`. -/
def inaddrNone : UInt32 := UInt32.ofNat 0xffffffff

/-- `inet_addr(text)`. -/
def inet_addr (text : List Char) : UInt32 :=
  match inet_aton 3 0 (textOf text) with
  | some word => UInt32.ofNat word
  | none => inaddrNone

theorem head?_toDigits_append (n : Nat) (rest : List Char) :
    (Nat.toDigits 10 n ++ rest).head?.any Char.isDigit = true := by
  obtain ⟨c, cs, hcons⟩ := List.exists_cons_of_ne_nil (Nat.toDigits_ne_nil (b := 10) (n := n))
  have hdigit : c.isDigit = true :=
    Nat.isDigit_of_mem_toDigits (b := 10) (n := n) (by decide) (by decide)
      (hcons ▸ List.mem_cons_self)
  rw [hcons]
  exact hdigit

/-- A part that is followed by a dot. -/
theorem inet_aton_part {b : Nat} (hb : b < 256) (room word : Nat) (text : List Char) :
    inet_aton (room + 1) word (Nat.toDigits 10 b ++ '.' :: text) =
      inet_aton room (word ||| b <<< (8 * (2 - room))) text := by
  rw [inet_aton, if_pos (head?_toDigits_append b _),
    strtoul_toDigits b (ends_cons (by decide) text)]
  dsimp only
  rw [if_neg (by omega), List.head?_cons, if_pos rfl, if_neg (by omega), List.tail_cons]

/-- The last of four parts. -/
theorem inet_aton_last {b : Nat} (hb : b < 256) (word : Nat) :
    inet_aton 0 word (Nat.toDigits 10 b) = some (word ||| htonl b) := by
  have hdigit := head?_toDigits_append b []
  have hread := strtoul_toDigits b ends_nil
  rw [List.append_nil] at hdigit hread
  have hmax : b ≤ maxPart (3 - 0) := Nat.le_of_lt_succ hb
  rw [inet_aton, if_pos hdigit, hread]
  dsimp only
  rw [if_neg (by omega), if_neg (by simp), if_pos (by simp [hmax])]

/-- What may stand in the text of an address. -/
theorem mem_dotted {w : UInt32} {c : Char} (h : c ∈ dotted w) : c.isDigit = true ∨ c = '.' := by
  have hdigits : ∀ n, c ∈ Nat.toDigits 10 n → c.isDigit = true ∨ c = '.' :=
    fun n hc => Or.inl (Nat.isDigit_of_mem_toDigits (by decide) (by decide) hc)
  rw [dotted] at h
  simp only [List.mem_append, List.mem_cons] at h
  rcases h with h | h | h | h | h | h | h
  · exact hdigits _ h
  · exact Or.inr h
  · exact hdigits _ h
  · exact Or.inr h
  · exact hdigits _ h
  · exact Or.inr h
  · exact hdigits _ h

theorem nul_notMem_dotted (w : UInt32) : nul ∉ dotted w := by
  intro h
  rcases mem_dotted h with hdigit | hdot
  · exact absurd hdigit (by decide)
  · exact absurd hdot (by decide)

/-- `inet_addr` reads what `inet_ntop` prints. -/
theorem inet_addr_dotted (w : UInt32) : inet_addr (dotted w) = w := by
  have hb : ∀ i, byteAt w i < 256 := fun i => Nat.mod_lt _ (by decide)
  have hread : inet_aton 3 0 (dotted w) = some w.toNat := by
    rw [dotted, inet_aton_part (hb 0), inet_aton_part (hb 1), inet_aton_part (hb 2),
      inet_aton_last (hb 3), ← bytes_or w, Nat.zero_or]
    rfl
  rw [inet_addr, textOf_eq_self (nul_notMem_dotted w), hread]
  exact UInt32.ofNat_toNat

theorem length_toDigits_byteAt (w : UInt32) (i : Nat) :
    (Nat.toDigits 10 (byteAt w i)).length ≤ 3 := by
  refine (Nat.length_toDigits_le_iff (by decide) (by decide)).mpr ?_
  exact Nat.lt_of_lt_of_le (Nat.mod_lt _ (by decide)) (by decide)

theorem length_dotted (w : UInt32) : (dotted w).length ≤ 15 := by
  have h0 := length_toDigits_byteAt w 0
  have h1 := length_toDigits_byteAt w 1
  have h2 := length_toDigits_byteAt w 2
  have h3 := length_toDigits_byteAt w 3
  simp only [dotted, List.length_append, List.length_cons]
  omega

/-! ## The class -/

/-- `InetAddress`, with the fields of `sockaddr_in` that are read. -/
structure InetAddress where
  sin_family : Nat
  sin_port : UInt16
  sin_addr : UInt32
deriving DecidableEq, Repr

/-- `AF_INET`. -/
def afInet : Nat := 2

namespace InetAddress

/-- `InetAddress(port, ip)`. -/
def ofIp (port : UInt16) (ip : List Char) : InetAddress where
  sin_family := afInet
  sin_port := htons port
  sin_addr := inet_addr ip

/-- `char buf[64] = {0}`, after `inet_ntop`. -/
def printed (a : InetAddress) : List Char := inet_ntop a.sin_addr (List.replicate 64 nul)

/-- `toIp`. -/
def toIp (a : InetAddress) : List Char := textOf a.printed

/-- `toPort`. -/
def toPort (a : InetAddress) : UInt16 := ntohs a.sin_port

/-- `toIpPort`; `none` if `sprintf` writes past the end of the array. -/
def toIpPort (a : InetAddress) : Option (List Char) :=
  (sprintf a.printed (textOf a.printed).length (':' :: Nat.toDigits 10 a.toPort.toNat)).map textOf

variable (a b : InetAddress)

theorem printed_spec : a.printed.length = 64 ∧ textOf a.printed = dotted a.sin_addr := by
  have hshort := length_dotted a.sin_addr
  have hempty : textOf (List.replicate 64 nul) = [] := by decide
  obtain ⟨buf, hbuf, hlength, htext⟩ :=
    sprintf_textOf (List.replicate 64 nul) (nul_notMem_dotted a.sin_addr) (by
      rw [hempty, List.length_replicate, List.length_nil]
      omega)
  rw [hempty, List.length_nil] at hbuf
  rw [hempty, List.nil_append] at htext
  rw [List.length_replicate] at hlength
  rw [printed, inet_ntop, if_neg (by rw [List.length_replicate]; omega), hbuf]
  exact ⟨hlength, htext⟩

theorem toIp_eq : a.toIp = dotted a.sin_addr := a.printed_spec.2

theorem length_port : (Nat.toDigits 10 a.toPort.toNat).length ≤ 5 := by
  refine (Nat.length_toDigits_le_iff (by decide) (by decide)).mpr ?_
  exact Nat.lt_of_lt_of_le a.toPort.toNat_lt (by decide)

theorem toIpPort_eq :
    a.toIpPort = some (dotted a.sin_addr ++ ':' :: Nat.toDigits 10 a.toPort.toNat) := by
  have hshort := length_dotted a.sin_addr
  have hport := a.length_port
  obtain ⟨hlength, htext⟩ := a.printed_spec
  have hnul : nul ∉ ':' :: Nat.toDigits 10 a.toPort.toNat := by
    intro h
    rcases List.mem_cons.mp h with h | h
    · exact absurd h (by decide)
    · exact absurd (Nat.isDigit_of_mem_toDigits (by decide) (by decide) h) (by decide)
  obtain ⟨buf, hbuf, -, hbuftext⟩ := sprintf_textOf a.printed hnul (by
    rw [htext, hlength, List.length_cons]
    omega)
  rw [toIpPort, hbuf, Option.map_some, hbuftext, htext]

/-- **What `toIp` and `toPort` give is read back as the address.** -/
theorem toIp_read_back (h : a.sin_family = afInet) : ofIp a.toPort a.toIp = a := by
  rw [ofIp, toPort, htons_ntohs, toIp_eq, inet_addr_dotted, ← h]

/-- An address that a caller wrote in hexadecimal and octal, in three parts. -/
theorem toIp_read_back_mixed :
    (ofIp 8080 "0x7f.010.258".toList).toIp = "127.8.1.2".toList ∧
      ofIp 8080 "127.8.1.2".toList = ofIp 8080 "0x7f.010.258".toList := by
  have hprint : (ofIp 8080 "0x7f.010.258".toList).toIp = "127.8.1.2".toList := by decide +kernel
  have hport : (ofIp 8080 "0x7f.010.258".toList).toPort = 8080 := by decide +kernel
  have hread := toIp_read_back (ofIp 8080 "0x7f.010.258".toList) rfl
  rw [hprint, hport] at hread
  exact ⟨hprint, hread⟩

/-! ## Names of connections -/

theorem length_toIpPort : (a.toIpPort.getD []).length ≤ 21 := by
  have hshort := length_dotted a.sin_addr
  have hport := a.length_port
  rw [toIpPort_eq, Option.getD_some, List.length_append, List.length_cons]
  omega

/-- What may stand in the text of an address with its port. -/
theorem mem_toIpPort {c : Char} (h : c ∈ a.toIpPort.getD []) :
    c.isDigit = true ∨ c = '.' ∨ c = ':' := by
  rw [toIpPort_eq, Option.getD_some] at h
  rcases List.mem_append.mp h with h | h
  · exact (mem_dotted h).imp_right Or.inl
  · rcases List.mem_cons.mp h with h | h
    · exact Or.inr (Or.inr h)
    · exact Or.inl (Nat.isDigit_of_mem_toDigits (by decide) (by decide) h)

/-- The text determines the address and the port. -/
theorem toIpPort_inj (h : a.toIpPort = b.toIpPort) :
    a.sin_addr = b.sin_addr ∧ a.sin_port = b.sin_port := by
  rw [toIpPort_eq, toIpPort_eq] at h
  have hcolon : ∀ w, ':' ∉ dotted w := by
    intro w hmem
    rcases mem_dotted hmem with hdigit | hdot
    · exact absurd hdigit (by decide)
    · exact absurd hdot (by decide)
  have hdigits : ':' ∉ Nat.toDigits 10 a.toPort.toNat := fun hmem =>
    absurd (Nat.isDigit_of_mem_toDigits (by decide) (by decide) hmem) (by decide)
  obtain ⟨hip, -, hport⟩ :=
    (List.append_cons_inj_of_notMem (hcolon a.sin_addr) hdigits).mp (Option.some.inj h)
  have haddr : a.sin_addr = b.sin_addr := by
    rw [← inet_addr_dotted a.sin_addr, hip, inet_addr_dotted]
  have hvalue : a.toPort = b.toPort := by
    refine UInt16.toNat_inj.mp ?_
    rw [← Nat.ofDigitChars_ten_toDigits (n := a.toPort.toNat), hport,
      Nat.ofDigitChars_ten_toDigits]
  refine ⟨haddr, ?_⟩
  rw [← htons_ntohs a.sin_port, ← htons_ntohs b.sin_port]
  exact congrArg htons hvalue

end InetAddress

/-- `TcpServer(loop, listenAddr)`: `ipPort_` and `name_` are `listenAddr.toIpPort()`. -/
def ServerConfig.ofListenAddr {ℓ : Type} (loop : ℓ) (listenAddr : InetAddress) :
    ServerConfig ℓ where
  base := loop
  ipPort := listenAddr.toIpPort.getD []
  short := listenAddr.length_toIpPort

namespace InetAddress

variable {ℓ : Type} (a b : InetAddress) {c d : ConnId}

/-- The name of a connection determines the text of the address that was listened on. -/
theorem ipPort_of_connName (loop loop' : ℓ) (hc : c < intLimit) (hd : d < intLimit)
    (h : (ServerConfig.ofListenAddr loop a).connName c =
      (ServerConfig.ofListenAddr loop' b).connName d) : a.toIpPort = b.toIpPort := by
  rw [ServerConfig.connName_eq _ hc, ServerConfig.connName_eq _ hd] at h
  have hdash : '-' ∉ a.toIpPort.getD [] := by
    intro hmem
    rcases a.mem_toIpPort hmem with h | h | h
    · exact absurd h (by decide)
    · exact absurd h (by decide)
    · exact absurd h (by decide)
  have htail : '-' ∉ a.toIpPort.getD [] ++ '#' :: Nat.toDigits 10 c := by
    intro hmem
    rcases List.mem_append.mp hmem with h | h
    · exact hdash h
    · rcases List.mem_cons.mp h with h | h
      · exact absurd h (by decide)
      · exact absurd (Nat.isDigit_of_mem_toDigits (by decide) (by decide) h) (by decide)
  have htext : a.toIpPort.getD [] = b.toIpPort.getD [] :=
    ((List.append_cons_inj_of_notMem hdash htail).mp h).1
  rw [toIpPort_eq a, toIpPort_eq b] at htext ⊢
  exact congrArg some htext

/-- **Names of connections.**  `toIpPort` stays within its array, and two connections, of
whatever servers of the process, have the same name exactly when they have the same id and their
servers were constructed with the same `listenAddr`.  With port 0 that is not the port on which
the server listens: the name has the port that was asked for. -/
theorem connName_tells_apart (loop loop' : ℓ) (hc : c < intLimit) (hd : d < intLimit) :
    (a.toIpPort = some (a.toIp ++ ':' :: Nat.toDigits 10 a.toPort.toNat)) ∧
      ((ServerConfig.ofListenAddr loop a).connName c =
          (ServerConfig.ofListenAddr loop' b).connName d ↔
        (a.sin_addr = b.sin_addr ∧ a.sin_port = b.sin_port) ∧ c = d) := by
  refine ⟨a.toIp_eq ▸ a.toIpPort_eq, fun h => ?_, ?_⟩
  · have htext := a.ipPort_of_connName b loop loop' hc hd h
    refine ⟨a.toIpPort_inj b htext, ?_⟩
    have hsame : (ServerConfig.ofListenAddr loop' b).connName d =
        (ServerConfig.ofListenAddr loop a).connName d := by
      simp only [ServerConfig.connName, ServerConfig.ofListenAddr, htext]
    exact ServerConfig.connName_injective _ hc hd (h.trans hsame)
  · rintro ⟨⟨haddr, hport⟩, rfl⟩
    have htext : a.toIpPort = b.toIpPort := by
      rw [toIpPort_eq, toIpPort_eq, toPort, toPort, haddr, hport]
    simp only [ServerConfig.connName, ServerConfig.ofListenAddr, htext]

/-- Two servers on neighbouring ports. -/
theorem connName_tells_apart_ports :
    (ServerConfig.ofListenAddr () (ofIp 80 "10.0.0.1".toList)).connName 11 ≠
      (ServerConfig.ofListenAddr () (ofIp 8080 "10.0.0.1".toList)).connName 11 := by
  intro h
  have hsame := ((connName_tells_apart (ofIp 80 "10.0.0.1".toList) (ofIp 8080 "10.0.0.1".toList)
    () () (by decide) (by decide)).2.mp h).1.2
  exact absurd hsame (by decide +kernel)

end InetAddress
end ReMuduo
