import Nanorun.Lib.Bytes

/-!
# Socket addresses

`sockaddr_storage_from` and `sockaddr_to_socketaddr` of `sys/linux/socket.rs` and of
`sys/windows/socket.rs`: an address goes into a C record, the record's bytes into a zeroed
`sockaddr_storage`, and back. The layouts of `sockaddr_in` and `sockaddr_in6` are those of
libc and windows-sys, which agree: the fields follow one another without padding. The two
systems differ in the number of `AF_INET6`.

The port goes through `to_be`, the IPv4 address through a native-endian word, the IPv6 address
as its bytes, and flow information and scope as native words. Every function takes the byte
order of the machine.
-/

namespace Nanorun.Sys

open Bytes

abbrev U16 := BitVec (8 * 2)

abbrev U32 := BitVec (8 * 4)

/-- `SocketAddrV4`: the octets of the address, and the port. -/
structure SocketAddrV4 where
  ip : Fin 4 → Byte
  port : U16

/-- `SocketAddrV6` -/
structure SocketAddrV6 where
  ip : Fin 16 → Byte
  port : U16
  flowinfo : U32
  scopeId : U32

inductive SocketAddr where
  | v4 (addr : SocketAddrV4)
  | v6 (addr : SocketAddrV6)

/-! ## The C records -/

/-- `sockaddr_in`; the union of `SOCKADDR_IN` is read and written as its `u32`. -/
structure SockaddrIn where
  sinFamily : U16
  sinPort : U16
  sinAddr : U32
  sinZero : Fin 8 → Byte

/-- `sockaddr_in6` -/
structure SockaddrIn6 where
  sin6Family : U16
  sin6Port : U16
  sin6Flowinfo : U32
  sin6Addr : Fin 16 → Byte
  sin6ScopeId : U32

/-- `sockaddr_storage` -/
abbrev Storage := Fin 128 → Byte

/-- All bytes zero. -/
def zeroes {n : Nat} : Fin n → Byte := fun _ => 0

namespace SockaddrIn

/-- The record in memory. -/
def bytes (e : Endian) (s : SockaddrIn) : Fin 16 → Byte :=
  put (put (put (put zeroes 0 (neBytes e s.sinFamily)) 2 (neBytes e s.sinPort))
    4 (neBytes e s.sinAddr)) 8 s.sinZero

/-- A record read from memory. -/
def ofBytes (e : Endian) (b : Fin 16 → Byte) : SockaddrIn where
  sinFamily := ofNe e (slice b 0 2)
  sinPort := ofNe e (slice b 2 2)
  sinAddr := ofNe e (slice b 4 4)
  sinZero := slice b 8 8

/-- `mem::zeroed()` -/
def zeroed : SockaddrIn where
  sinFamily := 0
  sinPort := 0
  sinAddr := 0
  sinZero := zeroes

end SockaddrIn

namespace SockaddrIn6

/-- The record in memory. -/
def bytes (e : Endian) (s : SockaddrIn6) : Fin 28 → Byte :=
  put (put (put (put (put zeroes 0 (neBytes e s.sin6Family)) 2 (neBytes e s.sin6Port))
    4 (neBytes e s.sin6Flowinfo)) 8 s.sin6Addr) 24 (neBytes e s.sin6ScopeId)

/-- A record read from memory. -/
def ofBytes (e : Endian) (b : Fin 28 → Byte) : SockaddrIn6 where
  sin6Family := ofNe e (slice b 0 2)
  sin6Port := ofNe e (slice b 2 2)
  sin6Flowinfo := ofNe e (slice b 4 4)
  sin6Addr := slice b 8 16
  sin6ScopeId := ofNe e (slice b 24 4)

/-- `mem::zeroed()` -/
def zeroed : SockaddrIn6 where
  sin6Family := 0
  sin6Port := 0
  sin6Flowinfo := 0
  sin6Addr := zeroes
  sin6ScopeId := 0

end SockaddrIn6

/-- `(*storage).ss_family` -/
def ssFamily (e : Endian) (storage : Storage) : U16 := ofNe e (slice storage 0 2)

/-- The text of the error for any other family. -/
def unknownFamily (family : Nat) : String := "unknown socket address family: " ++ toString family

/-! ## Linux -/

namespace Linux

def AF_INET : Nat := 2

def AF_INET6 : Nat := 10

/-- `write_sockaddr_in` -/
def writeSockaddrIn (e : Endian) (storage : Storage) (addr : SocketAddrV4) : Storage × Nat :=
  let sin : SockaddrIn :=
    { sinFamily := BitVec.ofNat 16 AF_INET
      sinPort := toBe e addr.port
      sinAddr := ofNe e addr.ip
      sinZero := zeroes }
  (put storage 0 (sin.bytes e), 16)

/-- `write_sockaddr_in6` -/
def writeSockaddrIn6 (e : Endian) (storage : Storage) (addr : SocketAddrV6) : Storage × Nat :=
  let sin6 : SockaddrIn6 :=
    { sin6Family := BitVec.ofNat 16 AF_INET6
      sin6Port := toBe e addr.port
      sin6Flowinfo := addr.flowinfo
      sin6Addr := addr.ip
      sin6ScopeId := addr.scopeId }
  (put storage 0 (sin6.bytes e), 28)

/-- `sockaddr_storage_from` -/
def sockaddrStorageFrom (e : Endian) (addr : SocketAddr) : Storage × Nat :=
  match addr with
  | .v4 v4 => writeSockaddrIn e zeroes v4
  | .v6 v6 => writeSockaddrIn6 e zeroes v6

/-- `sockaddr_to_socketaddr` -/
def sockaddrToSocketaddr (e : Endian) (storage : Storage) : Except String SocketAddr :=
  let family := (ssFamily e storage).toNat
  if family = AF_INET then
    let sin := SockaddrIn.ofBytes e (slice storage 0 16)
    .ok (.v4 { ip := neBytes e sin.sinAddr, port := fromBe e sin.sinPort })
  else if family = AF_INET6 then
    let sin6 := SockaddrIn6.ofBytes e (slice storage 0 28)
    .ok (.v6
      { ip := sin6.sin6Addr, port := fromBe e sin6.sin6Port, flowinfo := sin6.sin6Flowinfo,
        scopeId := sin6.sin6ScopeId })
  else .error (unknownFamily family)

end Linux

/-! ## Windows -/

namespace Windows

def AF_INET : U16 := 2

def AF_INET6 : U16 := 23

/-- `write_sockaddr_in` -/
def writeSockaddrIn (e : Endian) (storage : Storage) (addr : SocketAddrV4) : Storage × Nat :=
  let sin := SockaddrIn.zeroed
  let sin := { sin with sinFamily := AF_INET }
  let sin := { sin with sinPort := toBe e addr.port }
  let sin := { sin with sinAddr := ofNe e addr.ip }
  (put storage 0 (sin.bytes e), 16)

/-- `write_sockaddr_in6` -/
def writeSockaddrIn6 (e : Endian) (storage : Storage) (addr : SocketAddrV6) : Storage × Nat :=
  let sin6 := SockaddrIn6.zeroed
  let sin6 := { sin6 with sin6Family := AF_INET6 }
  let sin6 := { sin6 with sin6Port := toBe e addr.port }
  let sin6 := { sin6 with sin6Flowinfo := addr.flowinfo }
  let sin6 := { sin6 with sin6Addr := addr.ip }
  let sin6 := { sin6 with sin6ScopeId := addr.scopeId }
  (put storage 0 (sin6.bytes e), 28)

/-- `sockaddr_storage_from` -/
def sockaddrStorageFrom (e : Endian) (addr : SocketAddr) : Storage × Nat :=
  match addr with
  | .v4 v4 => writeSockaddrIn e zeroes v4
  | .v6 v6 => writeSockaddrIn6 e zeroes v6

/-- `sockaddr_to_socketaddr` -/
def sockaddrToSocketaddr (e : Endian) (storage : Storage) : Except String SocketAddr :=
  let family := ssFamily e storage
  if family = AF_INET then
    let sin := SockaddrIn.ofBytes e (slice storage 0 16)
    let octets := neBytes e sin.sinAddr
    .ok (.v4 { ip := octets, port := fromBe e sin.sinPort })
  else if family = AF_INET6 then
    let sin6 := SockaddrIn6.ofBytes e (slice storage 0 28)
    let octets := sin6.sin6Addr
    .ok (.v6
      { ip := octets, port := fromBe e sin6.sin6Port, flowinfo := sin6.sin6Flowinfo,
        scopeId := sin6.sin6ScopeId })
  else .error (unknownFamily family.toNat)

end Windows

/-! ## The records and their bytes -/

namespace SockaddrIn

theorem slice_family (e : Endian) (s : SockaddrIn) :
    slice (s.bytes e) 0 2 = neBytes e s.sinFamily := by
  rw [bytes, slice_put_other _ _ (by omega), slice_put_other _ _ (by omega),
    slice_put_other _ _ (by omega), slice_put_self _ _ (by omega)]

theorem slice_port (e : Endian) (s : SockaddrIn) :
    slice (s.bytes e) 2 2 = neBytes e s.sinPort := by
  rw [bytes, slice_put_other _ _ (by omega), slice_put_other _ _ (by omega),
    slice_put_self _ _ (by omega)]

theorem slice_addr (e : Endian) (s : SockaddrIn) :
    slice (s.bytes e) 4 4 = neBytes e s.sinAddr := by
  rw [bytes, slice_put_other _ _ (by omega), slice_put_self _ _ (by omega)]

theorem slice_zero (e : Endian) (s : SockaddrIn) : slice (s.bytes e) 8 8 = s.sinZero := by
  rw [bytes, slice_put_self _ _ (by omega)]

@[simp] theorem ofBytes_bytes (e : Endian) (s : SockaddrIn) : ofBytes e (s.bytes e) = s := by
  rw [ofBytes, slice_family, slice_port, slice_addr, slice_zero]
  simp only [ofNe_neBytes]

/-- There is no padding: the fields cover the record. -/
@[simp] theorem bytes_ofBytes (e : Endian) (b : Fin 16 → Byte) : (ofBytes e b).bytes e = b := by
  have h0 : ∀ i : Fin 16, i.val < 0 → (zeroes : Fin 16 → Byte) i = b i :=
    fun i hi => absurd hi (Nat.not_lt_zero _)
  have hall := put_slice_agrees (n := 8) (put_slice_agrees (n := 4)
    (put_slice_agrees (n := 2) (put_slice_agrees (n := 2) h0)))
  funext i
  simp only [bytes, ofBytes, neBytes_ofNe]
  exact hall i i.isLt

/-- `sin_zero` comes last. -/
theorem bytes_of_lt (e : Endian) (s : SockaddrIn) (zero : Fin 8 → Byte) {i : Fin 16}
    (h : i.val < 8) : ({ s with sinZero := zero } : SockaddrIn).bytes e i = s.bytes e i := by
  rw [bytes, bytes, put_outside _ _ (.inl h), put_outside _ _ (.inl h)]

end SockaddrIn

namespace SockaddrIn6

theorem slice_family (e : Endian) (s : SockaddrIn6) :
    slice (s.bytes e) 0 2 = neBytes e s.sin6Family := by
  rw [bytes, slice_put_other _ _ (by omega), slice_put_other _ _ (by omega),
    slice_put_other _ _ (by omega), slice_put_other _ _ (by omega), slice_put_self _ _ (by omega)]

theorem slice_port (e : Endian) (s : SockaddrIn6) :
    slice (s.bytes e) 2 2 = neBytes e s.sin6Port := by
  rw [bytes, slice_put_other _ _ (by omega), slice_put_other _ _ (by omega),
    slice_put_other _ _ (by omega), slice_put_self _ _ (by omega)]

theorem slice_flowinfo (e : Endian) (s : SockaddrIn6) :
    slice (s.bytes e) 4 4 = neBytes e s.sin6Flowinfo := by
  rw [bytes, slice_put_other _ _ (by omega), slice_put_other _ _ (by omega),
    slice_put_self _ _ (by omega)]

theorem slice_addr (e : Endian) (s : SockaddrIn6) : slice (s.bytes e) 8 16 = s.sin6Addr := by
  rw [bytes, slice_put_other _ _ (by omega), slice_put_self _ _ (by omega)]

theorem slice_scopeId (e : Endian) (s : SockaddrIn6) :
    slice (s.bytes e) 24 4 = neBytes e s.sin6ScopeId := by
  rw [bytes, slice_put_self _ _ (by omega)]

@[simp] theorem ofBytes_bytes (e : Endian) (s : SockaddrIn6) : ofBytes e (s.bytes e) = s := by
  rw [ofBytes, slice_family, slice_port, slice_flowinfo, slice_addr, slice_scopeId]
  simp only [ofNe_neBytes]

@[simp] theorem bytes_ofBytes (e : Endian) (b : Fin 28 → Byte) : (ofBytes e b).bytes e = b := by
  have h0 : ∀ i : Fin 28, i.val < 0 → (zeroes : Fin 28 → Byte) i = b i :=
    fun i hi => absurd hi (Nat.not_lt_zero _)
  have hall := put_slice_agrees (n := 4) (put_slice_agrees (n := 16) (put_slice_agrees (n := 4)
    (put_slice_agrees (n := 2) (put_slice_agrees (n := 2) h0))))
  funext i
  simp only [bytes, ofBytes, neBytes_ofNe]
  exact hall i i.isLt

end SockaddrIn6

end Nanorun.Sys
