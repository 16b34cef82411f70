import SampleTools.Library.TextInt

/-!
# The id of a connection

`get_tcp_id` packs the address and the port of the peer and the own port into 64 bits, and
`get_tcp_name` takes them out again and prints them. The port of the peer is shifted as an `int`:
from its highest bit on, the sign goes into the address.

The fields of `sockaddr_in` are the numbers that the host, a little-endian one, reads there.

## Main definitions

* `getTcpId`: the id, from what `getpeername` and `getsockname` fill in
* `tcpFields`, `getTcpName`: the fields that the name is printed from, and the name

## Main results

* `tcpFields_getTcpId`: what comes out of an id
* `packs_iff`: when it is what was put into it
* `length_getTcpName_lt`: the name fits its buffer
-/

namespace SampleTools

namespace Util

/-- What is used of `sockaddr_in`. -/
structure SockaddrIn where
  sinPort : BitVec 16
  sAddr : BitVec 32
  deriving DecidableEq, Repr

/-- `get_tcp_id`, with the addresses of the peer and of the own side. -/
def getTcpId (peer sock : SockaddrIn) : BitVec 64 :=
  let tcpId := peer.sAddr.setWidth 64
  let tcpId := tcpId <<< 32
  -- `sin_port` is promoted to `int`, shifted there, and comes to 64 bits with its sign
  let tcpId := tcpId + (peer.sinPort.setWidth 32 <<< 16).signExtend 64
  tcpId + sock.sinPort.setWidth 64

/-- The variables of `get_tcp_name`. -/
structure TcpFields where
  sAddr : BitVec 32
  peerPort : BitVec 32
  sockPort : BitVec 32
  deriving DecidableEq, Repr

/-- What `get_tcp_name` takes out of an id. -/
def tcpFields (tcpId : BitVec 64) : TcpFields where
  sAddr := (tcpId >>> 32).setWidth 32
  peerPort := (tcpId <<< 32 >>> 48).setWidth 32
  sockPort := (tcpId <<< 48 >>> 48).setWidth 32

/-- A byte of an address in memory. -/
def addrByte (sAddr : BitVec 32) (i : ℕ) : ℕ := sAddr.toNat / 256 ^ i % 256

/-- `inet_ntop`: the bytes as they stand in memory, with points between them. -/
def inetNtop (sAddr : BitVec 32) : List Char :=
  TextInt.print 0 (addrByte sAddr 0) ++ '.' :: TextInt.print 0 (addrByte sAddr 1) ++
    '.' :: TextInt.print 0 (addrByte sAddr 2) ++ '.' :: TextInt.print 0 (addrByte sAddr 3)

/-- `get_tcp_name`. -/
def getTcpName (tcpId : BitVec 64) : List Char :=
  let fields := tcpFields tcpId
  inetNtop fields.sAddr ++ ':' :: TextInt.print 0 fields.peerPort.toInt ++
    '-' :: TextInt.print 0 fields.sockPort.toInt

/-- The id is computed from the fields without a carry or a sign between them. -/
def Packs (peer sock : SockaddrIn) : Prop :=
  tcpFields (getTcpId peer sock) =
    ⟨peer.sAddr, peer.sinPort.setWidth 32, sock.sinPort.setWidth 32⟩

variable {a p q : ℕ} {tcpId : BitVec 64} {peer sock : SockaddrIn}

/-- The shifted port in 64 bits: with the highest bit of the port, all bits above it are set. -/
theorem toNat_port_signExtend (port : BitVec 16) :
    ((port.setWidth 32 <<< 16).signExtend 64).toNat =
      port.toNat * 2 ^ 16 + if 2 ^ 15 ≤ port.toNat then 2 ^ 64 - 2 ^ 32 else 0 := by
  have hlt := port.isLt
  have hshift : (port.setWidth 32 <<< 16).toNat = port.toNat * 2 ^ 16 := by
    rw [BitVec.toNat_shiftLeft, BitVec.toNat_setWidth, Nat.shiftLeft_eq]
    omega
  have hmsb : (port.setWidth 32 <<< 16).msb = decide (2 ^ 15 ≤ port.toNat) := by
    rw [BitVec.msb_eq_decide, hshift]
    apply decide_eq_decide.mpr
    omega
  have hwide : ((port.setWidth 32 <<< 16).setWidth 64).toNat = port.toNat * 2 ^ 16 := by
    rw [BitVec.toNat_setWidth, hshift]
    omega
  rw [BitVec.toNat_signExtend, hwide, hmsb]
  simp only [decide_eq_true_eq]

/-- The bits of the sign make the address one less. -/
theorem toNat_getTcpId (peer sock : SockaddrIn) : (getTcpId peer sock).toNat =
    (peer.sAddr.toNat + if 2 ^ 15 ≤ peer.sinPort.toNat then 2 ^ 32 - 1 else 0) % 2 ^ 32 * 2 ^ 32 +
      peer.sinPort.toNat * 2 ^ 16 + sock.sinPort.toNat := by
  have haddr := peer.sAddr.isLt
  have hpeer := peer.sinPort.isLt
  have hsock := sock.sinPort.isLt
  have hport := toNat_port_signExtend peer.sinPort
  simp only [getTcpId, BitVec.toNat_add, BitVec.toNat_shiftLeft, BitVec.toNat_setWidth,
    Nat.shiftLeft_eq, hport]
  split_ifs <;> omega

/-- The fields of an id are its digits. -/
theorem toNat_tcpFields (hpack : tcpId.toNat = a * 2 ^ 32 + p * 2 ^ 16 + q) (hp : p < 2 ^ 16)
    (hq : q < 2 ^ 16) : (tcpFields tcpId).sAddr.toNat = a ∧
      (tcpFields tcpId).peerPort.toNat = p ∧ (tcpFields tcpId).sockPort.toNat = q := by
  simp only [tcpFields, BitVec.toNat_setWidth, BitVec.toNat_ushiftRight, BitVec.toNat_shiftLeft,
    Nat.shiftLeft_eq, Nat.shiftRight_eq_div_pow, hpack]
  refine ⟨?_, ?_, ?_⟩ <;> omega

/-- The ports come out as they are. The address comes out one less if the port of the peer has its
highest bit set. -/
theorem tcpFields_getTcpId (peer sock : SockaddrIn) : tcpFields (getTcpId peer sock) =
    ⟨if 2 ^ 15 ≤ peer.sinPort.toNat then peer.sAddr - 1 else peer.sAddr,
      peer.sinPort.setWidth 32, sock.sinPort.setWidth 32⟩ := by
  have haddr := peer.sAddr.isLt
  have hpeer := peer.sinPort.isLt
  have hsock := sock.sinPort.isLt
  obtain ⟨haddr', hpeer', hsock'⟩ :=
    toNat_tcpFields (toNat_getTcpId peer sock) hpeer hsock
  rw [TcpFields.mk.injEq]
  refine ⟨?_, ?_, ?_⟩
  · apply BitVec.eq_of_toNat_eq
    rw [haddr']
    split_ifs
    · have hone : (1 : BitVec 32).toNat = 1 := rfl
      rw [BitVec.toNat_sub, hone]
      omega
    · omega
  · apply BitVec.eq_of_toNat_eq
    rw [hpeer', BitVec.toNat_setWidth]
    omega
  · apply BitVec.eq_of_toNat_eq
    rw [hsock', BitVec.toNat_setWidth]
    omega

/-- **The fields of a connection come out of its id exactly if the sign stays out of the
address.** For all addresses and ports: address and ports that `get_tcp_name` takes out of the id of
`get_tcp_id` are the ones put into it, exactly if the highest bit of the peer's port field is not
set. -/
theorem packs_iff (peer sock : SockaddrIn) : Packs peer sock ↔ peer.sinPort.toNat < 2 ^ 15 := by
  rw [Packs, tcpFields_getTcpId, TcpFields.mk.injEq, and_iff_left ⟨rfl, rfl⟩, ← not_le]
  split_ifs with hport
  · apply iff_of_false
    · intro hsub
      have hone : (1 : BitVec 32).toNat = 1 := rfl
      have hnat := congrArg BitVec.toNat hsub
      rw [BitVec.toNat_sub, hone] at hnat
      have haddr := peer.sAddr.isLt
      omega
    · exact not_not.mpr hport
  · exact iff_of_true rfl hport

/-- The port 128 of the peer, 0x8000 as it is read, behind the address 127.0.0.1. -/
theorem packs_fails : ¬ Packs ⟨0x8000, 0x0100007f⟩ ⟨0x1234, 0x0100007f⟩ ∧
    getTcpName (getTcpId ⟨0x8000, 0x0100007f⟩ ⟨0x1234, 0x0100007f⟩) =
      "126.0.0.1:32768-4660".toList := by
  refine ⟨?_, by decide⟩
  intro hpacks
  have haddr := congrArg TcpFields.sAddr hpacks
  revert haddr
  decide

/-- A number below a power of ten is printed with that many characters at most. -/
theorem length_print_le {n k : ℕ} (h : n < 10 ^ k) (hk : 0 < k) :
    (TextInt.print 0 n).length ≤ k := by
  rw [TextInt.print, if_neg (by omega), Int.natAbs_natCast, Decimal.pad, List.length_leftpad,
    Nat.max_eq_right (Nat.zero_le _)]
  exact (Nat.length_toDigits_le_iff (by decide) hk).mpr h

theorem length_inetNtop_le (sAddr : BitVec 32) : (inetNtop sAddr).length ≤ 15 := by
  have hbyte : ∀ i, (TextInt.print 0 (addrByte sAddr i)).length ≤ 3 := fun i =>
    length_print_le (lt_trans (Nat.mod_lt _ (by decide)) (by decide)) (by decide)
  have h0 := hbyte 0
  have h1 := hbyte 1
  have h2 := hbyte 2
  have h3 := hbyte 3
  simp only [inetNtop, List.length_append, List.length_cons]
  omega

/-- The buffer of `get_tcp_name` takes every name and the zero behind it. -/
theorem length_getTcpName_lt (tcpId : BitVec 64) :
    (getTcpName tcpId).length < 16 + 1 + 5 + 1 + 5 := by
  have hid := tcpId.isLt
  have hfields := @toNat_tcpFields (tcpId.toNat / 2 ^ 32) (tcpId.toNat / 2 ^ 16 % 2 ^ 16)
    (tcpId.toNat % 2 ^ 16) tcpId (by omega) (by omega) (by omega)
  -- neither port is negative as an `int`
  have hport : ∀ x : BitVec 32, x.toNat < 2 ^ 16 → (TextInt.print 0 x.toInt).length ≤ 5 := by
    intro x hx
    rw [BitVec.toInt_eq_toNat_of_lt (by omega)]
    apply length_print_le <;> omega
  have haddr := length_inetNtop_le (tcpFields tcpId).sAddr
  have hpeer := hport (tcpFields tcpId).peerPort (by omega)
  have hsock := hport (tcpFields tcpId).sockPort (by omega)
  simp only [getTcpName, List.length_append, List.length_cons]
  omega

end Util

end SampleTools
