import TcpProjects.Lib.Address
import TcpProjects.Lib.TCPException

/-! # What the texts of the library tell

`inet_ntoa` prints an address in the form that both readers take for the same number,
and the text that the constructor of an exception composes names the call that failed, its
socket, its server and the error, up to the text that `CloseException` shares with
`ListenException`. A handler reads it from the classes that override `what`. -/

namespace TcpProjects.Lib
open ChatServer Numerals

/-! ### Addresses -/

theorem decimal_part {v : ℕ} (h : v ≤ 255) : decimalPart (decimal v) = some v := by
  have hleading : ∀ v < 256, (decimal v).head? = some zero → decimal v = [zero] := by decide +kernel
  rw [decimalPart_eq_some]
  exact ⟨⟨(decimal_length_le (by decide)).mpr (by omega),hleading v (by omega)⟩,numeral_decimal v,h⟩

theorem dot_not_mem (n : ℕ) : dot ∉ decimal n := fun h => absurd (decimal_digit h) (by decide)

theorem splitOn_dot {parts : Bytes} (n : ℕ) :
    (decimal n ++ dot :: parts).splitOn dot = decimal n :: parts.splitOn dot := by
  rw [List.splitOn_append_cons_self,List.splitOn_eq_singleton (dot_not_mem n),List.singleton_append]

/- The four numbers of an address. -/
def octet (addr : BitVec 32) (i : ℕ) : ℕ := addr.toNat/2^(8*(3-i))%256

theorem octet_le (addr : BitVec 32) (i : ℕ) : octet addr i ≤ 255 :=
  Nat.le_of_lt_succ (Nat.mod_lt _ (by decide))

theorem inetNtoa_octets (addr : BitVec 32) : inetNtoa addr =
    decimal (octet addr 0) ++ dot :: (decimal (octet addr 1) ++ dot :: (decimal (octet addr 2) ++
      dot :: decimal (octet addr 3))) := by
  have hfirst : addr.toNat/2^24 = octet addr 0 := by
    have := addr.isLt
    unfold octet
    omega
  have hlast : addr.toNat%256 = octet addr 3 := by simp [octet]
  have hdot : ascii "." = [dot] := by decide
  simp only [inetNtoa,hfirst,hlast,hdot,List.append_assoc,List.singleton_append]
  rfl

theorem octets_value (addr : BitVec 32) :
    ((octet addr 0*256+octet addr 1)*256+octet addr 2)*256+octet addr 3 = addr.toNat := by
  have := addr.isLt
  simp only [octet]
  omega

theorem splitOn_inetNtoa (addr : BitVec 32) : (inetNtoa addr).splitOn dot =
    [decimal (octet addr 0),decimal (octet addr 1),decimal (octet addr 2),decimal (octet addr 3)] := by
  rw [inetNtoa_octets,splitOn_dot,splitOn_dot,splitOn_dot,List.splitOn_eq_singleton (dot_not_mem _)]

theorem inetPton_inetNtoa (addr : BitVec 32) : inetPton (inetNtoa addr) = some addr.toNat := by
  have hpart (i : ℕ) := decimal_part (octet_le addr i)
  exact inetPton_eq_some.mpr ⟨_,_,_,_,_,_,_,_,splitOn_inetNtoa addr,
    ⟨hpart 0,hpart 1,hpart 2,hpart 3⟩,(octets_value addr).symm⟩

theorem htons_port (port : BitVec 16) : htons (port.toNat : ℤ) = port := by
  rw [htons,BitVec.ofInt_natCast,BitVec.ofNat_toNat,BitVec.setWidth_eq]

/-- The address and the port of a server, as the exceptions print them, lead back to it,
through the constructor and through `setServer`. -/
theorem server_reads_back (t : TCPServer) (server : SockaddrIn) :
    (TCPServer.new (inetNtoa server.sin_addr) server.sin_port.toNat).server = server ∧
    (t.setServer (inetNtoa server.sin_addr) server.sin_port.toNat).server = server := by
  have hpton := inetPton_inetNtoa server.sin_addr
  obtain ⟨n,hn,haddr⟩ := (plain_of_read hpton).read
  obtain rfl := Option.some.inj (hpton.symm.trans hn)
  constructor
  · simp only [TCPServer.new,hpton,Option.getD_some,BitVec.ofNat_toNat,BitVec.setWidth_eq,
      unsignedShort_htons,htons_port]
  · simp only [TCPServer.setServer,haddr,Option.getD_some,BitVec.ofNat_toNat,BitVec.setWidth_eq,
      short_htons,htons_port]

/-! ### Texts of exceptions -/

/- A number with its sign ends where no digit follows. -/
theorem signed_append_inj {z w : ℤ} {c d : Byte} {x y : Bytes} (hc : ¬ IsDigit c) (hd : ¬ IsDigit d)
    (h : signed z ++ c :: x = signed w ++ d :: y) : z = w ∧ c = d ∧ x = y := by
  have hminus : ascii "-" = [byte '-'] := by decide
  -- A minus sign is no digit.
  have hsign {n : ℕ} {a : Byte} {u v : Bytes} (ha : ¬ IsDigit a)
      (he : byte '-' :: u = decimal n ++ a :: v) : False := by
    cases hn : decimal n with
    | nil =>
      have hlength := decimal_pos n
      rw [hn] at hlength
      exact Nat.lt_irrefl _ hlength
    | cons b bs =>
      rw [hn] at he
      have hb : IsDigit b := decimal_digit (hn ▸ List.mem_cons_self)
      exact absurd ((List.cons.inj he).1 ▸ hb) (by decide)
  unfold signed at h
  rw [hminus] at h
  split_ifs at h with hz hw hw
  · obtain ⟨hn,hrest⟩ := decimal_append_inj hc hd (List.cons.inj h).2
    exact ⟨by omega,hrest⟩
  · exact (hsign hd h).elim
  · exact (hsign hc h.symm).elim
  · obtain ⟨hn,hrest⟩ := decimal_append_inj hc hd h
    exact ⟨by omega,hrest⟩

theorem inetNtoa_append_inj {a b : BitVec 32} {x y : Bytes}
    (h : inetNtoa a ++ byte ':' :: x = inetNtoa b ++ byte ':' :: y) : a = b ∧ x = y := by
  simp only [inetNtoa_octets,List.append_assoc,List.cons_append] at h
  obtain ⟨h0,_,h⟩ := decimal_append_inj (by decide) (by decide) h
  obtain ⟨h1,_,h⟩ := decimal_append_inj (by decide) (by decide) h
  obtain ⟨h2,_,h⟩ := decimal_append_inj (by decide) (by decide) h
  obtain ⟨h3,_,h⟩ := decimal_append_inj (by decide) (by decide) h
  refine ⟨BitVec.eq_of_toNat_eq ?_,h⟩
  rw [← octets_value a,← octets_value b,h0,h1,h2,h3]

def errnos : List Errno :=
  [.eperm,.enoent,.eintr,.eio,.ebadf,.eagain,.enomem,.eacces,.efault,.enotdir,.einval,.enfile,
    .emfile,.enospc,.erofs,.epipe,.enametoolong,.eloop,.enosr,.enonet,.eproto,.enotsock,
    .edestaddrreq,.emsgsize,.eprototype,.enoprotoopt,.eprotonosupport,.esocktnosupport,.eopnotsupp,
    .eafnosupport,.eaddrinuse,.eaddrnotavail,.enetdown,.enetunreach,.econnaborted,.econnreset,
    .enobufs,.eisconn,.enotconn,.etimedout,.econnrefused,.ehostdown,.ehostunreach,.ealready,
    .einprogress,.edquot]

theorem mem_errnos (err : Errno) : err ∈ errnos := by cases err <;> decide

theorem strerror_inj {err err' : Errno} (h : strerror err = strerror err') : err = err' := by
  have hnodup : (errnos.map strerror).Nodup := by decide +kernel
  exact List.inj_on_of_nodup_map hnodup (mem_errnos err) (mem_errnos err') h

/- The end of every text. -/
def ending (err : Errno) : Bytes := byte ':' :: byte ' ' :: (strerror err ++ ascii "\n")

theorem ending_inj {err err' : Errno} (h : byte ' ' :: (strerror err ++ ascii "\n") =
    byte ' ' :: (strerror err' ++ ascii "\n")) : err = err' :=
  strerror_inj (List.append_cancel_right (List.cons.inj h).2)

/- A socket behind some words. -/
theorem socket_inj {words : Bytes} {z w : ℤ} {err err' : Errno}
    (h : words ++ (signed z ++ ending err) = words ++ (signed w ++ ending err')) :
    z = w ∧ err = err' := by
  obtain ⟨hz,_,hrest⟩ := signed_append_inj (by decide) (by decide) (List.append_cancel_left h)
  exact ⟨hz,ending_inj hrest⟩

def onServer (server : SockaddrIn) (err : Errno) : Bytes :=
  byte ' ' :: (ascii "to server " ++ (inetNtoa server.sin_addr ++ byte ':' ::
    (decimal server.sin_port.toNat ++ ending err)))

/- A socket and a server behind some words. -/
theorem socket_server_inj {words : Bytes} {z w : ℤ} {server server' : SockaddrIn} {err err' : Errno}
    (h : words ++ (signed z ++ onServer server err) = words ++ (signed w ++ onServer server' err')) :
    z = w ∧ server = server' ∧ err = err' := by
  obtain ⟨hz,_,h⟩ := signed_append_inj (by decide) (by decide) (List.append_cancel_left h)
  obtain ⟨haddr,h⟩ := inetNtoa_append_inj (List.append_cancel_left h)
  obtain ⟨hport,_,h⟩ := decimal_append_inj (by decide) (by decide) h
  refine ⟨hz,?_,ending_inj h⟩
  obtain ⟨addr,port⟩ := server
  obtain ⟨addr',port'⟩ := server'
  obtain rfl : addr = addr' := haddr
  obtain rfl : port = port' := BitVec.eq_of_toNat_eq hport
  rfl

namespace TCPException

/- The words before the first number, and what follows them. -/
def words : TCPException → Bytes
  | SendException _ => ascii "Failed to send data to socket "
  | AcceptException _ _ => ascii "Failed to accept socket "
  | ListenException _ | CloseException _ => ascii "Failed to listen on socket "
  | BindException _ _ => ascii "Failed to bind socket "
  | SocketInitException => ascii "Failed to initialize socket"
  | ReceiveException _ => ascii "Failed to receive data from socket "
  | ConnectException _ _ => ascii "Failed to connect socket "

def behind (err : Errno) : TCPException → Bytes
  | SendException socket | ListenException socket | CloseException socket
  | ReceiveException socket => signed socket ++ ending err
  | AcceptException acceptedSocket acceptorSocket => signed acceptedSocket ++
    byte ' ' :: (ascii "on acceptor socket " ++ (signed acceptorSocket ++ ending err))
  | BindException socket server | ConnectException socket server =>
    signed socket ++ onServer server err
  | SocketInitException => ending err

theorem text_words (e : TCPException) (err : Errno) : e.text err = e.words ++ e.behind err := by
  have hcolon : ascii ": " = [byte ':',byte ' '] := by decide
  have hserver : ascii " to server " = byte ' ' :: ascii "to server " := by decide
  have hacceptor : ascii " on acceptor socket " = byte ' ' :: ascii "on acceptor socket " := by decide
  have hport : ascii ":" = [byte ':'] := by decide
  have hinit : ascii "Failed to initialize socket: " =
      ascii "Failed to initialize socket" ++ [byte ':',byte ' '] := by decide
  cases e <;> simp only [text,opening,words,behind,onServer,ending,hcolon,hserver,hacceptor,hport,
    hinit,List.append_assoc,List.cons_append,List.nil_append]

/- The first letter of the verb. -/
theorem text_verb (e : TCPException) (err : Errno) : (e.text err)[10]? = e.words[10]? := by
  have hlong : 10 < e.words.length := by cases e <;> (simp only [words]; decide)
  rw [text_words,List.getElem?_append_left hlong]

end TCPException

open TCPException in
/- Texts are equal only for the same error of the same call with the same socket and the
same server, and for a `listen` and a `close` of one socket. -/
theorem text_inj (e e' : TCPException) (err err' : Errno) :
    e.text err = e'.text err' ↔ err = err' ∧ (e = e' ∨ ∃ socket,
      e = ListenException socket ∧ e' = CloseException socket ∨
      e = CloseException socket ∧ e' = ListenException socket) := by
  constructor
  · intro h
    have hverb := (text_verb e err).symm.trans ((congrArg (·[10]?) h).trans (text_verb e' err'))
    rw [text_words,text_words] at h
    cases e with
    | SendException socket =>
      cases e' with
      | SendException socket' =>
        obtain ⟨rfl,rfl⟩ := socket_inj h
        exact ⟨rfl,Or.inl rfl⟩
      | _ => exact absurd hverb (by simp only [words]; decide)
    | AcceptException accepted acceptor =>
      cases e' with
      | AcceptException accepted' acceptor' =>
        obtain ⟨rfl,_,h⟩ := signed_append_inj (by decide) (by decide) (List.append_cancel_left h)
        obtain ⟨rfl,rfl⟩ := socket_inj h
        exact ⟨rfl,Or.inl rfl⟩
      | _ => exact absurd hverb (by simp only [words]; decide)
    | ListenException socket =>
      cases e' with
      | ListenException socket' =>
        obtain ⟨rfl,rfl⟩ := socket_inj h
        exact ⟨rfl,Or.inl rfl⟩
      | CloseException socket' =>
        obtain ⟨rfl,rfl⟩ := socket_inj h
        exact ⟨rfl,Or.inr ⟨socket,Or.inl ⟨rfl,rfl⟩⟩⟩
      | _ => exact absurd hverb (by simp only [words]; decide)
    | CloseException socket =>
      cases e' with
      | CloseException socket' =>
        obtain ⟨rfl,rfl⟩ := socket_inj h
        exact ⟨rfl,Or.inl rfl⟩
      | ListenException socket' =>
        obtain ⟨rfl,rfl⟩ := socket_inj h
        exact ⟨rfl,Or.inr ⟨socket,Or.inr ⟨rfl,rfl⟩⟩⟩
      | _ => exact absurd hverb (by simp only [words]; decide)
    | BindException socket server =>
      cases e' with
      | BindException socket' server' =>
        obtain ⟨rfl,rfl,rfl⟩ := socket_server_inj h
        exact ⟨rfl,Or.inl rfl⟩
      | _ => exact absurd hverb (by simp only [words]; decide)
    | SocketInitException =>
      cases e' with
      | SocketInitException => exact ⟨ending_inj (List.cons.inj (List.append_cancel_left h)).2,Or.inl rfl⟩
      | _ => exact absurd hverb (by simp only [words]; decide)
    | ReceiveException socket =>
      cases e' with
      | ReceiveException socket' =>
        obtain ⟨rfl,rfl⟩ := socket_inj h
        exact ⟨rfl,Or.inl rfl⟩
      | _ => exact absurd hverb (by simp only [words]; decide)
    | ConnectException socket server =>
      cases e' with
      | ConnectException socket' server' =>
        obtain ⟨rfl,rfl,rfl⟩ := socket_server_inj h
        exact ⟨rfl,Or.inl rfl⟩
      | _ => exact absurd hverb (by simp only [words]; decide)
  · rintro ⟨rfl,rfl | ⟨socket,⟨rfl,rfl⟩ | ⟨rfl,rfl⟩⟩⟩
    · rfl
    · rfl
    · rfl

namespace TCPException

theorem text_ne (e : TCPException) (err : Errno) : e.text err ≠ ascii "std::exception" := by
  intro h
  have hfirst : (e.text err)[0]? = (ascii "std::exception")[0]? := congrArg (·[0]?) h
  have hlong : 0 < e.words.length := by cases e <;> (simp only [words]; decide)
  rw [text_words,List.getElem?_append_left hlong] at hfirst
  revert hfirst
  cases e <;> (simp only [words]; decide)

theorem what_inj (e e' : TCPException) (err err' : Errno) : e.what err = e'.what err' ↔
    (e.overrides = true ∧ e = e' ∧ err = err') ∨ (e.overrides = false ∧ e'.overrides = false) := by
  unfold what
  cases he : e.overrides <;> cases he' : e'.overrides <;> simp only [Bool.false_eq_true,if_true,if_false]
  · simp
  · refine ⟨fun h => absurd h.symm (e'.text_ne err'),fun h => ?_⟩
    simp at h
  · refine ⟨fun h => absurd h (e.text_ne err),fun h => ?_⟩
    rcases h with ⟨_,rfl,_⟩ | ⟨h,_⟩
    · cases he.symm.trans he'
    · cases h
  · -- `CloseException` does not override `what`.
    rw [text_inj]
    constructor
    · rintro ⟨herr,rfl | ⟨socket,⟨rfl,rfl⟩ | ⟨rfl,rfl⟩⟩⟩
      · exact Or.inl ⟨trivial,rfl,herr⟩
      · cases he'
      · cases he
    · rintro (⟨_,rfl,herr⟩ | ⟨h,_⟩)
      · exact ⟨herr,Or.inl rfl⟩
      · cases h

end TCPException

open TCPException in
/-- The constructors compose equal texts only for the same error of the same call with the
same socket and the same server, and for a `listen` and a `close` of one socket. A handler
of `std::exception` is told the error by the classes that override `what`, and cannot tell
any two errors of the others apart. -/
theorem error_text_unambiguous (e e' : TCPException) (err err' : Errno) :
    (e.text err = e'.text err' ↔ err = err' ∧ (e = e' ∨ ∃ socket,
      e = ListenException socket ∧ e' = CloseException socket ∨
      e = CloseException socket ∧ e' = ListenException socket)) ∧
    (e.what err = e'.what err' ↔
      (e.overrides = true ∧ e = e' ∧ err = err') ∨ (e.overrides = false ∧ e'.overrides = false)) :=
  ⟨text_inj e e' err err',what_inj e e' err err'⟩

end TcpProjects.Lib
