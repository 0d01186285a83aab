import Nanorun.Sys.Sockaddr

/-!
# Socket addresses there and back

The two implementations behind one name. They are written independently, one fills in
a record and the other sets the fields of a zeroed one, and they agree up to the number of
`AF_INET6`; `storageFrom_v4` to `toSocketaddr_other` say so, and nothing below looks at either
of them again.

What a round trip through the storage keeps follows from what one through the record keeps.
-/

namespace Nanorun.Sys

open Bytes

inductive Os where
  | linux
  | windows
  deriving DecidableEq, Repr

namespace Os

def sockaddrStorageFrom : Os → Endian → SocketAddr → Storage × Nat
  | .linux => Linux.sockaddrStorageFrom
  | .windows => Windows.sockaddrStorageFrom

def sockaddrToSocketaddr : Os → Endian → Storage → Except String SocketAddr
  | .linux => Linux.sockaddrToSocketaddr
  | .windows => Windows.sockaddrToSocketaddr

def afInet : Os → U16
  | .linux => BitVec.ofNat 16 Linux.AF_INET
  | .windows => Windows.AF_INET

def afInet6 : Os → U16
  | .linux => BitVec.ofNat 16 Linux.AF_INET6
  | .windows => Windows.AF_INET6

end Os

/-! ## What the two have in common -/

/-- The record of an IPv4 address. -/
def Os.sockaddrIn (os : Os) (e : Endian) (addr : SocketAddrV4) : SockaddrIn where
  sinFamily := os.afInet
  sinPort := toBe e addr.port
  sinAddr := ofNe e addr.ip
  sinZero := zeroes

/-- The record of an IPv6 address. -/
def Os.sockaddrIn6 (os : Os) (e : Endian) (addr : SocketAddrV6) : SockaddrIn6 where
  sin6Family := os.afInet6
  sin6Port := toBe e addr.port
  sin6Flowinfo := addr.flowinfo
  sin6Addr := addr.ip
  sin6ScopeId := addr.scopeId

/-- The address in a record. -/
def SockaddrIn.addr (s : SockaddrIn) (e : Endian) : SocketAddrV4 where
  ip := neBytes e s.sinAddr
  port := fromBe e s.sinPort

def SockaddrIn6.addr (s : SockaddrIn6) (e : Endian) : SocketAddrV6 where
  ip := s.sin6Addr
  port := fromBe e s.sin6Port
  flowinfo := s.sin6Flowinfo
  scopeId := s.sin6ScopeId

theorem storageFrom_v4 (os : Os) (e : Endian) (addr : SocketAddrV4) :
    os.sockaddrStorageFrom e (.v4 addr) = (put zeroes 0 ((os.sockaddrIn e addr).bytes e), 16) := by
  cases os with
  | linux => rfl
  | windows => rfl

theorem storageFrom_v6 (os : Os) (e : Endian) (addr : SocketAddrV6) :
    os.sockaddrStorageFrom e (.v6 addr) = (put zeroes 0 ((os.sockaddrIn6 e addr).bytes e), 28) := by
  cases os with
  | linux => rfl
  | windows => rfl

/-- Linux compares the family as an `i32`, Windows as the `u16` it is. -/
theorem linux_family (family : U16) (af : Nat) (haf : af < 2 ^ 16) :
    family.toNat = af ↔ family = BitVec.ofNat 16 af := by
  rw [← BitVec.toNat_inj, BitVec.toNat_ofNat, Nat.mod_eq_of_lt haf]

theorem toSocketaddr_v4 {os : Os} {e : Endian} {storage : Storage}
    (h : ssFamily e storage = os.afInet) :
    os.sockaddrToSocketaddr e storage
      = .ok (.v4 ((SockaddrIn.ofBytes e (slice storage 0 16)).addr e)) := by
  cases os with
  | linux => exact if_pos ((linux_family _ _ (by decide)).mpr h)
  | windows => exact if_pos h

theorem toSocketaddr_v6 {os : Os} {e : Endian} {storage : Storage}
    (h : ssFamily e storage = os.afInet6) :
    os.sockaddrToSocketaddr e storage
      = .ok (.v6 ((SockaddrIn6.ofBytes e (slice storage 0 28)).addr e)) := by
  have hne : ssFamily e storage ≠ os.afInet := by
    rw [h]
    cases os <;> decide
  cases os with
  | linux =>
      exact (if_neg fun h4 => hne ((linux_family _ _ (by decide)).mp h4)).trans
        (if_pos ((linux_family _ _ (by decide)).mpr h))
  | windows => exact (if_neg hne).trans (if_pos h)

theorem toSocketaddr_other {os : Os} {e : Endian} {storage : Storage}
    (h4 : ssFamily e storage ≠ os.afInet) (h6 : ssFamily e storage ≠ os.afInet6) :
    os.sockaddrToSocketaddr e storage = .error (unknownFamily (ssFamily e storage).toNat) := by
  cases os with
  | linux =>
      exact (if_neg fun h => h4 ((linux_family _ _ (by decide)).mp h)).trans
        (if_neg fun h => h6 ((linux_family _ _ (by decide)).mp h))
  | windows => exact (if_neg h4).trans (if_neg h6)

/-! ## Records in the storage -/

/-- Either record begins with the family. -/
theorem ssFamily_eq (e : Endian) (storage : Storage) {n : Nat} (h2 : 2 ≤ n) (hn : n ≤ 128) :
    ssFamily e storage = ofNe e (slice (slice storage 0 n) 0 2) := by
  rw [slice_slice storage (by omega) (by omega)]
  rfl

theorem ssFamily_in (e : Endian) (storage : Storage) :
    ssFamily e storage = (SockaddrIn.ofBytes e (slice storage 0 16)).sinFamily :=
  ssFamily_eq e storage (by omega) (by omega)

theorem ssFamily_in6 (e : Endian) (storage : Storage) :
    ssFamily e storage = (SockaddrIn6.ofBytes e (slice storage 0 28)).sin6Family :=
  ssFamily_eq e storage (by omega) (by omega)

/-- What a copied record leaves in the storage. -/
theorem stored_lt {n : Nat} (b : Fin n → Byte) {i : Fin 128} (h : i.val < n) :
    (put zeroes 0 b : Storage) i = b ⟨i.val, h⟩ := put_inside _ _ ⟨Nat.zero_le _, by omega⟩

theorem stored_ge {n : Nat} (b : Fin n → Byte) {i : Fin 128} (h : n ≤ i.val) :
    (put zeroes 0 b : Storage) i = 0 := put_outside _ _ (.inr (by omega))

/-- The bytes of the storage behind an offset of the record. -/
theorem stored_slice {n k : Nat} {b : Fin n → Byte} {off : Nat} {field : Fin k → Byte}
    (h : slice b off k = field) (hn : off + k ≤ n) (i : Fin k) {a : Fin 128}
    (ha : a.val = off + i.val) : (put zeroes 0 b : Storage) a = field i := by
  rw [stored_lt b (by omega), ← h, slice_apply _ (by omega)]
  congr 1
  exact Fin.ext ha

/-! ## Round trips -/

theorem decode_encode (os : Os) (e : Endian) (addr : SocketAddr) :
    os.sockaddrToSocketaddr e (os.sockaddrStorageFrom e addr).1 = .ok addr := by
  cases addr with
  | v4 addr =>
      rw [storageFrom_v4]
      have hrecord := slice_put_self (zeroes : Storage) ((os.sockaddrIn e addr).bytes e)
        (show 0 + 16 ≤ 128 by omega)
      rw [toSocketaddr_v4, hrecord, SockaddrIn.ofBytes_bytes]
      · simp [SockaddrIn.addr, Os.sockaddrIn]
      · rw [ssFamily_in, hrecord, SockaddrIn.ofBytes_bytes]
        rfl
  | v6 addr =>
      rw [storageFrom_v6]
      have hrecord := slice_put_self (zeroes : Storage) ((os.sockaddrIn6 e addr).bytes e)
        (show 0 + 28 ≤ 128 by omega)
      rw [toSocketaddr_v6, hrecord, SockaddrIn6.ofBytes_bytes]
      · simp [SockaddrIn6.addr, Os.sockaddrIn6]
      · rw [ssFamily_in6, hrecord, SockaddrIn6.ofBytes_bytes]
        rfl

/-- Family, port and address come back; `sin_zero` does not. -/
theorem encode_decode_v4 {os : Os} {e : Endian} {storage : Storage}
    (h : ssFamily e storage = os.afInet) {i : Fin 128} (hi : i.val < 8) :
    (os.sockaddrStorageFrom e
      (.v4 ((SockaddrIn.ofBytes e (slice storage 0 16)).addr e))).1 i = storage i := by
  have hrecord : os.sockaddrIn e ((SockaddrIn.ofBytes e (slice storage 0 16)).addr e)
      = { SockaddrIn.ofBytes e (slice storage 0 16) with sinZero := zeroes } := by
    rw [ssFamily_in] at h
    simp [SockaddrIn.addr, Os.sockaddrIn, ← h]
  have hlt : i.val < 16 := by omega
  rw [storageFrom_v4, hrecord]
  refine (stored_lt _ hlt).trans ((SockaddrIn.bytes_of_lt e _ zeroes (i := ⟨i.val, hlt⟩) hi).trans ?_)
  rw [SockaddrIn.bytes_ofBytes, slice_apply _ (by simp only; omega)]
  simp only [Nat.zero_add]

/-- The whole record comes back. -/
theorem encode_decode_v6 {os : Os} {e : Endian} {storage : Storage}
    (h : ssFamily e storage = os.afInet6) {i : Fin 128} (hi : i.val < 28) :
    (os.sockaddrStorageFrom e
      (.v6 ((SockaddrIn6.ofBytes e (slice storage 0 28)).addr e))).1 i = storage i := by
  have hrecord : os.sockaddrIn6 e ((SockaddrIn6.ofBytes e (slice storage 0 28)).addr e)
      = SockaddrIn6.ofBytes e (slice storage 0 28) := by
    rw [ssFamily_in6] at h
    simp [SockaddrIn6.addr, Os.sockaddrIn6, ← h]
  rw [storageFrom_v6, hrecord]
  refine (stored_lt _ hi).trans ?_
  rw [SockaddrIn6.bytes_ofBytes, slice_apply _ (by simp only; omega)]
  simp only [Nat.zero_add]

/-! ## The network layout -/

/-- The port's bytes in either record. -/
theorem stored_port {n : Nat} {b : Fin n → Byte} {e : Endian} {port : U16} (hn : 4 ≤ n)
    (h : slice b 2 2 = neBytes e (toBe e port)) :
    (put zeroes 0 b : Storage) 2 = port.extractLsb' 8 8
    ∧ (put zeroes 0 b : Storage) 3 = port.extractLsb' 0 8 := by
  rw [neBytes_toBe] at h
  exact ⟨stored_slice h hn 0 rfl, stored_slice h hn 1 rfl⟩

/-- The bytes of an encoded IPv4 address. -/
theorem layout_v4 (os : Os) (e : Endian) (addr : SocketAddrV4) :
    (os.sockaddrStorageFrom e (.v4 addr)).2 = 16
    ∧ (os.sockaddrStorageFrom e (.v4 addr)).1 2 = addr.port.extractLsb' 8 8
    ∧ (os.sockaddrStorageFrom e (.v4 addr)).1 3 = addr.port.extractLsb' 0 8
    ∧ (∀ i : Fin 4, (os.sockaddrStorageFrom e (.v4 addr)).1 ⟨4 + i.val, by omega⟩ = addr.ip i)
    ∧ ∀ i : Fin 128, 16 ≤ i.val → (os.sockaddrStorageFrom e (.v4 addr)).1 i = 0 := by
  rw [storageFrom_v4]
  obtain ⟨hhigh, hlow⟩ := stored_port (by omega) (SockaddrIn.slice_port e (os.sockaddrIn e addr))
  have haddr : slice ((os.sockaddrIn e addr).bytes e) 4 4 = addr.ip := by
    rw [SockaddrIn.slice_addr]
    exact neBytes_ofNe e addr.ip
  exact ⟨rfl, hhigh, hlow, fun i => stored_slice haddr (by omega) i rfl, fun i hi => stored_ge _ hi⟩

/-- The bytes of an encoded IPv6 address. -/
theorem layout_v6 (os : Os) (e : Endian) (addr : SocketAddrV6) :
    (os.sockaddrStorageFrom e (.v6 addr)).2 = 28
    ∧ (os.sockaddrStorageFrom e (.v6 addr)).1 2 = addr.port.extractLsb' 8 8
    ∧ (os.sockaddrStorageFrom e (.v6 addr)).1 3 = addr.port.extractLsb' 0 8
    ∧ (∀ i : Fin 16, (os.sockaddrStorageFrom e (.v6 addr)).1 ⟨8 + i.val, by omega⟩ = addr.ip i)
    ∧ ∀ i : Fin 128, 28 ≤ i.val → (os.sockaddrStorageFrom e (.v6 addr)).1 i = 0 := by
  rw [storageFrom_v6]
  obtain ⟨hhigh, hlow⟩ :=
    stored_port (by omega) (SockaddrIn6.slice_port e (os.sockaddrIn6 e addr))
  have haddr : slice ((os.sockaddrIn6 e addr).bytes e) 8 16 = addr.ip := SockaddrIn6.slice_addr e _
  exact ⟨rfl, hhigh, hlow, fun i => stored_slice haddr (by omega) i rfl, fun i hi => stored_ge _ hi⟩

/--
**Socket addresses survive the storage, in the network's layout.**

On both systems and for either byte order: decoding an encoded address gives it back.
In the storage the port has its more significant byte at offset 2 and the other at 3, the
octets of an IPv4 address follow from offset 4 and those of an IPv6 address from offset 8, in
order, and every byte from the returned length on is zero. A storage of family `AF_INET` or
`AF_INET6` decodes to an address, and encoding that one gives back the bytes of the family, port
and IPv4 address, or of the whole `sockaddr_in6`. Any other family is an error.
-/
theorem sockaddr_round_trips (os : Os) (e : Endian) :
    (∀ addr, os.sockaddrToSocketaddr e (os.sockaddrStorageFrom e addr).1 = .ok addr)
    ∧ (∀ addr : SocketAddrV4,
        (os.sockaddrStorageFrom e (.v4 addr)).2 = 16
        ∧ (os.sockaddrStorageFrom e (.v4 addr)).1 2 = addr.port.extractLsb' 8 8
        ∧ (os.sockaddrStorageFrom e (.v4 addr)).1 3 = addr.port.extractLsb' 0 8
        ∧ (∀ i : Fin 4,
            (os.sockaddrStorageFrom e (.v4 addr)).1 ⟨4 + i.val, by omega⟩ = addr.ip i)
        ∧ ∀ i : Fin 128, 16 ≤ i.val → (os.sockaddrStorageFrom e (.v4 addr)).1 i = 0)
    ∧ (∀ addr : SocketAddrV6,
        (os.sockaddrStorageFrom e (.v6 addr)).2 = 28
        ∧ (os.sockaddrStorageFrom e (.v6 addr)).1 2 = addr.port.extractLsb' 8 8
        ∧ (os.sockaddrStorageFrom e (.v6 addr)).1 3 = addr.port.extractLsb' 0 8
        ∧ (∀ i : Fin 16,
            (os.sockaddrStorageFrom e (.v6 addr)).1 ⟨8 + i.val, by omega⟩ = addr.ip i)
        ∧ ∀ i : Fin 128, 28 ≤ i.val → (os.sockaddrStorageFrom e (.v6 addr)).1 i = 0)
    ∧ (∀ storage, ssFamily e storage = os.afInet →
        ∃ addr, os.sockaddrToSocketaddr e storage = .ok (.v4 addr)
          ∧ ∀ i : Fin 128, i.val < 8 →
              (os.sockaddrStorageFrom e (.v4 addr)).1 i = storage i)
    ∧ (∀ storage, ssFamily e storage = os.afInet6 →
        ∃ addr, os.sockaddrToSocketaddr e storage = .ok (.v6 addr)
          ∧ ∀ i : Fin 128, i.val < 28 →
              (os.sockaddrStorageFrom e (.v6 addr)).1 i = storage i)
    ∧ ∀ storage, ssFamily e storage ≠ os.afInet → ssFamily e storage ≠ os.afInet6 →
        os.sockaddrToSocketaddr e storage
          = .error (unknownFamily (ssFamily e storage).toNat) :=
  ⟨decode_encode os e, layout_v4 os e, layout_v6 os e,
    fun _ h => ⟨_, toSocketaddr_v4 h, fun _ hi => encode_decode_v4 h hi⟩,
    fun _ h => ⟨_, toSocketaddr_v6 h, fun _ hi => encode_decode_v6 h hi⟩,
    fun _ h4 h6 => toSocketaddr_other h4 h6⟩

/-- Port 8080 is `0x1f90`. -/
example (os : Os) :
    (os.sockaddrStorageFrom .little (.v4 { ip := fun _ => 10, port := 8080 })).1 2 = 0x1f := by
  cases os <;> decide +kernel

end Nanorun.Sys
