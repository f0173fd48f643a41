import TcpProjects.Base.CString
import TcpProjects.ChatServer.Server

/-! # The texts of the exceptions

The constructors of `TCPException.cpp` print their text into `error_msg` with `sprintf`.
The arrays are hand-sized, and the one of `SendException` is a pointer that is never set;
no system message is short enough for them but one, in one class. -/

namespace TcpProjects.Lib
open ChatServer

/-! ### System messages -/

/- The errors that the calls below are documented to report. -/
inductive Errno where
  | eperm | enoent | eintr | eio | ebadf | eagain | enomem | eacces | efault | enotdir | einval
  | enfile | emfile | enospc | erofs | epipe | enametoolong | eloop | enosr | enonet | eproto
  | enotsock | edestaddrreq | emsgsize | eprototype | enoprotoopt | eprotonosupport
  | esocktnosupport | eopnotsupp | eafnosupport | eaddrinuse | eaddrnotavail | enetdown
  | enetunreach | econnaborted | econnreset | enobufs | eisconn | enotconn | etimedout
  | econnrefused | ehostdown | ehostunreach | ealready | einprogress | edquot
  deriving DecidableEq

def strerror : Errno → Bytes
  | .eperm => ascii "Operation not permitted"
  | .enoent => ascii "No such file or directory"
  | .eintr => ascii "Interrupted system call"
  | .eio => ascii "Input/output error"
  | .ebadf => ascii "Bad file descriptor"
  | .eagain => ascii "Resource temporarily unavailable"
  | .enomem => ascii "Cannot allocate memory"
  | .eacces => ascii "Permission denied"
  | .efault => ascii "Bad address"
  | .enotdir => ascii "Not a directory"
  | .einval => ascii "Invalid argument"
  | .enfile => ascii "Too many open files in system"
  | .emfile => ascii "Too many open files"
  | .enospc => ascii "No space left on device"
  | .erofs => ascii "Read-only file system"
  | .epipe => ascii "Broken pipe"
  | .enametoolong => ascii "File name too long"
  | .eloop => ascii "Too many levels of symbolic links"
  | .enosr => ascii "Out of streams resources"
  | .enonet => ascii "Machine is not on the network"
  | .eproto => ascii "Protocol error"
  | .enotsock => ascii "Socket operation on non-socket"
  | .edestaddrreq => ascii "Destination address required"
  | .emsgsize => ascii "Message too long"
  | .eprototype => ascii "Protocol wrong type for socket"
  | .enoprotoopt => ascii "Protocol not available"
  | .eprotonosupport => ascii "Protocol not supported"
  | .esocktnosupport => ascii "Socket type not supported"
  | .eopnotsupp => ascii "Operation not supported"
  | .eafnosupport => ascii "Address family not supported by protocol"
  | .eaddrinuse => ascii "Address already in use"
  | .eaddrnotavail => ascii "Cannot assign requested address"
  | .enetdown => ascii "Network is down"
  | .enetunreach => ascii "Network is unreachable"
  | .econnaborted => ascii "Software caused connection abort"
  | .econnreset => ascii "Connection reset by peer"
  | .enobufs => ascii "No buffer space available"
  | .eisconn => ascii "Transport endpoint is already connected"
  | .enotconn => ascii "Transport endpoint is not connected"
  | .etimedout => ascii "Connection timed out"
  | .econnrefused => ascii "Connection refused"
  | .ehostdown => ascii "Host is down"
  | .ehostunreach => ascii "No route to host"
  | .ealready => ascii "Operation already in progress"
  | .einprogress => ascii "Operation now in progress"
  | .edquot => ascii "Disk quota exceeded"

/-! ### The classes -/

/- `%d`. -/
def signed (z : ℤ) : Bytes := if z < 0 then ascii "-" ++ decimal z.natAbs else decimal z.natAbs

/- The bytes of an address stand in network order, the first one most significant. -/
def inetNtoa (addr : BitVec 32) : Bytes :=
  decimal (addr.toNat/2^24) ++ ascii "." ++ decimal (addr.toNat/2^16%256) ++ ascii "." ++
    decimal (addr.toNat/2^8%256) ++ ascii "." ++ decimal (addr.toNat%256)

/- The arguments of the constructors without `err_num`. -/
inductive TCPException where
  | SendException (socket : ℤ)
  | AcceptException (acceptedSocket acceptorSocket : ℤ)
  | ListenException (socket : ℤ)
  | CloseException (socket : ℤ)
  | BindException (socket : ℤ) (server : SockaddrIn)
  | SocketInitException
  | ReceiveException (socket : ℤ)
  | ConnectException (socket : ℤ) (server : SockaddrIn)

namespace TCPException

/- What stands before the system message. -/
def opening : TCPException → Bytes
  | SendException socket => ascii "Failed to send data to socket " ++ signed socket ++ ascii ": "
  | AcceptException acceptedSocket acceptorSocket => ascii "Failed to accept socket " ++
    signed acceptedSocket ++ ascii " on acceptor socket " ++ signed acceptorSocket ++ ascii ": "
  | ListenException socket => ascii "Failed to listen on socket " ++ signed socket ++ ascii ": "
  -- the text is the one of ListenException
  | CloseException socket => ascii "Failed to listen on socket " ++ signed socket ++ ascii ": "
  | BindException socket server => ascii "Failed to bind socket " ++ signed socket ++
    ascii " to server " ++ inetNtoa server.sin_addr ++ ascii ":" ++
      decimal server.sin_port.toNat ++ ascii ": "
  | SocketInitException => ascii "Failed to initialize socket: "
  | ReceiveException socket => ascii "Failed to receive data from socket " ++ signed socket ++ ascii ": "
  | ConnectException socket server => ascii "Failed to connect socket " ++ signed socket ++
    ascii " to server " ++ inetNtoa server.sin_addr ++ ascii ":" ++
      decimal server.sin_port.toNat ++ ascii ": "

/- What `sprintf` prints, without its terminator. -/
def text (e : TCPException) (err : Errno) : Bytes := e.opening ++ strerror err ++ ascii "\n"

/- `what` of the base class is `const`: a `what` without it is another function, and
`CloseException` has none. -/
def overrides : TCPException → Bool
  | SendException _ | AcceptException _ _ | ListenException _ | BindException _ _ => true
  | CloseException _ | SocketInitException | ReceiveException _ | ConnectException _ _ => false

/- What a handler of `std::exception` reads, from an array that is large enough. -/
def what (e : TCPException) (err : Errno) : Bytes :=
  if e.overrides then e.text err else ascii "std::exception"

/- The size of `error_msg`; the `char *` of `SendException` points to no storage. -/
def storage : TCPException → ℕ
  | SendException _ => 0
  | AcceptException _ _ => 61
  | ListenException _ => 42
  | CloseException _ => 42
  | BindException _ _ => 53
  | SocketInitException => 40
  | ReceiveException _ => 50
  | ConnectException _ _ => 56

/- The errors of the call after whose failure the exception is thrown: `send`, `accept`,
`listen`, `close`, `bind`, `socket`, `recv`, `connect`. -/
def reports : TCPException → List Errno
  | SendException _ => [.eacces,.eagain,.ealready,.ebadf,.econnreset,.edestaddrreq,.efault,.eintr,
    .einval,.eisconn,.emsgsize,.enobufs,.enomem,.enotconn,.enotsock,.eopnotsupp,.epipe,.eio,
    .enetdown,.enetunreach,.ehostunreach,.etimedout]
  | AcceptException _ _ => [.eagain,.ebadf,.econnaborted,.efault,.eintr,.einval,.emfile,.enfile,
    .enobufs,.enomem,.enotsock,.eopnotsupp,.eperm,.eproto,.enetdown,.enoprotoopt,.ehostdown,
    .enonet,.ehostunreach,.enetunreach,.enosr,.esocktnosupport,.eprotonosupport,.etimedout]
  | ListenException _ => [.eaddrinuse,.ebadf,.enotsock,.eopnotsupp,.eacces,.edestaddrreq,.einval,
    .enobufs]
  | CloseException _ => [.ebadf,.eintr,.eio,.enospc,.edquot]
  | BindException _ _ => [.eacces,.eaddrinuse,.ebadf,.einval,.enotsock,.eaddrnotavail,.eafnosupport,
    .eopnotsupp,.eisconn,.ealready,.einprogress,.enobufs,.efault,.eloop,.enametoolong,.enoent,
    .enomem,.enotdir,.erofs,.eio,.edestaddrreq]
  | SocketInitException => [.eacces,.eafnosupport,.einval,.emfile,.enfile,.enobufs,.enomem,
    .eprotonosupport,.eprototype]
  | ReceiveException _ => [.eagain,.ebadf,.econnrefused,.efault,.eintr,.einval,.enomem,.enotconn,
    .enotsock,.econnreset,.etimedout,.eio,.enobufs,.eopnotsupp]
  | ConnectException _ _ => [.eacces,.eperm,.eaddrinuse,.eaddrnotavail,.eafnosupport,.eagain,
    .ealready,.ebadf,.econnrefused,.efault,.einprogress,.eintr,.eisconn,.enetunreach,.enotsock,
    .eprototype,.etimedout,.einval,.enetdown,.ehostunreach,.econnreset,.enobufs,.eopnotsupp,.eio]

def Fits (e : TCPException) (err : Errno) : Prop := (e.text err).length+1 ≤ e.storage

instance (e : TCPException) (err : Errno) : Decidable (e.Fits err) :=
  inferInstanceAs (Decidable (_ ≤ _))

end TCPException

/-! ### Lengths -/

theorem decimal_pos (n : ℕ) : 0 < (decimal n).length := by
  rw [decimal,List.length_map]
  exact Nat.length_toDigits_pos

theorem signed_pos (z : ℤ) : 0 < (signed z).length := by
  unfold signed
  split_ifs
  · rw [List.length_append]
    exact Nat.add_pos_right _ (decimal_pos _)
  · exact decimal_pos _

theorem signed_one (z : ℤ) : (signed z).length ≤ 1 ↔ 0 ≤ z ∧ z ≤ 9 := by
  unfold signed
  split_ifs with hneg
  · have hpos := decimal_pos z.natAbs
    have hsign : (ascii "-").length = 1 := rfl
    rw [List.length_append,hsign]
    omega
  · rw [decimal_length_le (by decide)]
    omega

theorem inetNtoa_length (addr : BitVec 32) : 7 ≤ (inetNtoa addr).length := by
  have hdot : (ascii ".").length = 1 := rfl
  have h1 := decimal_pos (addr.toNat/2^24)
  have h2 := decimal_pos (addr.toNat/2^16%256)
  have h3 := decimal_pos (addr.toNat/2^8%256)
  have h4 := decimal_pos (addr.toNat%256)
  simp only [inetNtoa,List.length_append,hdot]
  omega

theorem strerror_cases (err : Errno) : if err = .efault ∨ err = .epipe then (strerror err).length = 11
    else 12 ≤ (strerror err).length := by
  cases err <;> decide +kernel

theorem strerror_length (err : Errno) : 11 ≤ (strerror err).length := by
  have h := strerror_cases err
  split_ifs at h <;> omega

theorem strerror_short {err : Errno} (h : (strerror err).length ≤ 11) : err = .efault ∨ err = .epipe := by
  by_contra hno
  have hlong := strerror_cases err
  rw [if_neg hno] at hlong
  omega

namespace TCPException

theorem text_length (e : TCPException) (err : Errno) :
    (e.text err).length = e.opening.length + (strerror err).length + 1 := by
  rw [text,List.length_append,List.length_append]
  rfl

/- With the shortest message, every array but that of `AcceptException` is too small. -/
theorem opening_length (e : TCPException) (h : ∀ a b, e ≠ AcceptException a b) :
    e.storage < e.opening.length + 13 := by
  have hcolon : (ascii ": ").length = 2 := rfl
  cases e with
  | SendException socket => exact Nat.lt_add_left _ (Nat.zero_lt_succ _)
  | AcceptException a b => exact absurd rfl (h a b)
  | ListenException socket | CloseException socket =>
    have htext : (ascii "Failed to listen on socket ").length = 27 := rfl
    have hpos := signed_pos socket
    simp only [opening,storage,List.length_append,htext,hcolon]
    omega
  | BindException socket server =>
    have htext : (ascii "Failed to bind socket ").length = 22 := rfl
    have hserver : (ascii " to server ").length = 11 := rfl
    have hpos := signed_pos socket
    have haddr := inetNtoa_length server.sin_addr
    have hport := decimal_pos server.sin_port.toNat
    simp only [opening,storage,List.length_append,htext,hserver,hcolon]
    omega
  | SocketInitException => decide
  | ReceiveException socket =>
    have htext : (ascii "Failed to receive data from socket ").length = 35 := rfl
    have hpos := signed_pos socket
    simp only [opening,storage,List.length_append,htext,hcolon]
    omega
  | ConnectException socket server =>
    have htext : (ascii "Failed to connect socket ").length = 25 := rfl
    have hserver : (ascii " to server ").length = 11 := rfl
    have hpos := signed_pos socket
    have haddr := inetNtoa_length server.sin_addr
    have hport := decimal_pos server.sin_port.toNat
    simp only [opening,storage,List.length_append,htext,hserver,hcolon]
    omega

theorem not_fits (e : TCPException) (h : ∀ a b, e ≠ AcceptException a b) (err : Errno) : ¬ e.Fits err := by
  have hroom := e.opening_length h
  have hmessage := strerror_length err
  unfold Fits
  rw [text_length]
  omega

theorem accept_fits (acceptedSocket acceptorSocket : ℤ) (err : Errno) :
    (AcceptException acceptedSocket acceptorSocket).Fits err ↔
      (0 ≤ acceptedSocket ∧ acceptedSocket ≤ 9) ∧ (0 ≤ acceptorSocket ∧ acceptorSocket ≤ 9) ∧
        (strerror err).length ≤ 11 := by
  have haccept : (ascii "Failed to accept socket ").length = 24 := rfl
  have hacceptor : (ascii " on acceptor socket ").length = 20 := rfl
  have hcolon : (ascii ": ").length = 2 := rfl
  have hpos := signed_pos acceptedSocket
  have hpos' := signed_pos acceptorSocket
  have hmessage := strerror_length err
  rw [← signed_one,← signed_one,Fits,text_length]
  simp only [opening,storage,List.length_append,haccept,hacceptor,hcolon]
  omega

/- `acceptClient` passes the -1 that `accept` returned. -/
theorem accept_failed_not_fits (acceptorSocket : ℤ) (err : Errno) :
    ¬ (AcceptException (-1) acceptorSocket).Fits err := by
  rw [accept_fits]
  omega

end TCPException

/-- Of all texts that can be built after a failed call, only that of `AcceptException`
for a bad address fits its array, and only if both numbers have one digit. -/
theorem error_text_fits (e : TCPException) {err : Errno} (h : err ∈ e.reports) :
    e.Fits err ↔ ∃ acceptedSocket acceptorSocket, e = .AcceptException acceptedSocket acceptorSocket ∧
      (0 ≤ acceptedSocket ∧ acceptedSocket ≤ 9) ∧ (0 ≤ acceptorSocket ∧ acceptorSocket ≤ 9) ∧
        err = .efault := by
  constructor
  · intro hfits
    by_cases hclass : ∃ a b, e = .AcceptException a b
    · obtain ⟨a,b,rfl⟩ := hclass
      obtain ⟨ha,hb,hlength⟩ := (TCPException.accept_fits a b err).mp hfits
      refine ⟨a,b,rfl,ha,hb,(strerror_short hlength).resolve_right ?_⟩
      rintro rfl
      have hpipe : Errno.epipe ∉ (TCPException.AcceptException 0 0).reports := by decide
      exact hpipe h
    · exact absurd hfits (e.not_fits (fun a b he => hclass ⟨a,b,he⟩) err)
  · rintro ⟨a,b,rfl,ha,hb,rfl⟩
    exact (TCPException.accept_fits a b .efault).mpr ⟨ha,hb,by decide⟩

/- Socket 4 accepted on socket 3. -/
theorem error_text_fits_accept : (TCPException.AcceptException 4 3).Fits .efault :=
  (error_text_fits (.AcceptException 4 3) (by decide)).mpr ⟨4,3,rfl,by decide,by decide,rfl⟩

/- `listen` on a closed socket 3: 51 bytes for an array of 42. -/
theorem error_text_too_long :
    (TCPException.ListenException 3).text .ebadf = ascii "Failed to listen on socket 3: Bad file descriptor\n" ∧
    Errno.ebadf ∈ (TCPException.ListenException 3).reports ∧
    ¬ (TCPException.ListenException 3).Fits .ebadf :=
  ⟨by decide +kernel,by decide,(TCPException.ListenException 3).not_fits nofun _⟩

end TcpProjects.Lib
