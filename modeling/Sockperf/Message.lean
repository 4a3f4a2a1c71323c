import Sockperf.Lib.ByteOrder
import Sockperf.Lib.Memory

/-!
# Message headers and the Message object

`MsgHeader` is packed to 14 bytes: the sequence number, the flags, the length,
each in the byte order of the (little-endian) host. A `Message` is a pointer to
such a header somewhere in memory; its accessors read and write through it.
-/

namespace Sockperf

open ByteOrder Memory
set_option autoImplicit false

/-- `class MsgHeader`, in the order its fields have in memory. -/
structure MsgHeader where
  sequenceNumber : UInt64
  flags : UInt16
  length : UInt32
  deriving DecidableEq, Repr

/-- `MsgHeader::EFFECTIVE_SIZE`: 8 + 2 + 4. -/
def effectiveSize : Nat := 14

/-- `htonll` and `ntohll` of a little-endian host, that is `__bswap_64`. -/
def htonll (x : UInt64) : UInt64 := UInt64.ofNat (swap 8 x.toNat)
def htons (x : UInt16) : UInt16 := UInt16.ofNat (swap 2 x.toNat)
def htonl (x : UInt32) : UInt32 := UInt32.ofNat (swap 4 x.toNat)

theorem toNat_htonll (x : UInt64) : (htonll x).toNat = swap 8 x.toNat := by
  rw [htonll, UInt64.toNat_ofNat']
  exact Nat.mod_eq_of_lt (swap_lt 8 _)

theorem toNat_htons (x : UInt16) : (htons x).toNat = swap 2 x.toNat := by
  rw [htons, UInt16.toNat_ofNat']
  exact Nat.mod_eq_of_lt (swap_lt 2 _)

theorem toNat_htonl (x : UInt32) : (htonl x).toNat = swap 4 x.toNat := by
  rw [htonl, UInt32.toNat_ofNat']
  exact Nat.mod_eq_of_lt (swap_lt 4 _)

@[simp] theorem htonll_htonll (x : UInt64) : htonll (htonll x) = x := by
  apply UInt64.toNat_inj.mp
  rw [toNat_htonll, toNat_htonll, swap_swap x.toNat_lt]

@[simp] theorem htons_htons (x : UInt16) : htons (htons x) = x := by
  apply UInt16.toNat_inj.mp
  rw [toNat_htons, toNat_htons, swap_swap x.toNat_lt]

@[simp] theorem htonl_htonl (x : UInt32) : htonl (htonl x) = x := by
  apply UInt32.toNat_inj.mp
  rw [toNat_htonl, toNat_htonl, swap_swap x.toNat_lt]

namespace MsgHeader

def maskClient : UInt16 := 1
def maskPong : UInt16 := 2
def maskWarmupMsg : UInt16 := 4

def isClient (h : MsgHeader) : Bool := h.flags &&& maskClient != 0
def setClient (h : MsgHeader) : MsgHeader := { h with flags := h.flags ||| maskClient }
def setServer (h : MsgHeader) : MsgHeader := { h with flags := h.flags &&& ~~~maskClient }

def isPongRequest (h : MsgHeader) : Bool := h.flags &&& maskPong != 0
def setPongRequest (h : MsgHeader) : MsgHeader := { h with flags := h.flags ||| maskPong }
def resetPongRequest (h : MsgHeader) : MsgHeader := { h with flags := h.flags &&& ~~~maskPong }

def isWarmupMessage (h : MsgHeader) : Bool := h.flags &&& maskWarmupMsg != 0
def setWarmupMessage (h : MsgHeader) : MsgHeader := { h with flags := h.flags ||| maskWarmupMsg }
def resetWarmupMessage (h : MsgHeader) : MsgHeader :=
  { h with flags := h.flags &&& ~~~maskWarmupMsg }

def hton (h : MsgHeader) : MsgHeader := ⟨htonll h.sequenceNumber, htons h.flags, htonl h.length⟩
def ntoh (h : MsgHeader) : MsgHeader := ⟨htonll h.sequenceNumber, htons h.flags, htonl h.length⟩

theorem eq_mk {h : MsgHeader} {seq : UInt64} {flags : UInt16} {length : UInt32}
    (hseq : h.sequenceNumber = seq) (hflags : h.flags = flags) (hlength : h.length = length) :
    h = ⟨seq, flags, length⟩ := by
  subst hseq hflags hlength
  rfl

@[simp] theorem ntoh_hton (h : MsgHeader) : h.hton.ntoh = h := by simp [hton, ntoh]

@[simp] theorem hton_ntoh (h : MsgHeader) : h.ntoh.hton = h := by simp [hton, ntoh]

def bytes (h : MsgHeader) : List UInt8 :=
  image 8 h.sequenceNumber.toNat ++ (image 2 h.flags.toNat ++ image 4 h.length.toNat)

/-- The header that 14 bytes of memory show. -/
def ofBytes (bs : List UInt8) : MsgHeader :=
  ⟨UInt64.ofNat (value (bs.take 8)), UInt16.ofNat (value ((bs.drop 8).take 2)),
    UInt32.ofNat (value ((bs.drop 10).take 4))⟩

@[simp] theorem bytes_length (h : MsgHeader) : h.bytes.length = effectiveSize := by
  simp [bytes, effectiveSize]

theorem ofBytes_append (h : MsgHeader) (rest : List UInt8) : ofBytes (h.bytes ++ rest) = h := by
  have h8 : (h.bytes ++ rest).take 8 = image 8 h.sequenceNumber.toNat := by
    rw [bytes, List.append_assoc, List.take_left' (by simp)]
  have h2 : ((h.bytes ++ rest).drop 8).take 2 = image 2 h.flags.toNat := by
    rw [bytes, List.append_assoc, List.drop_left' (by simp), List.append_assoc,
      List.take_left' (by simp)]
  have h4 : ((h.bytes ++ rest).drop 10).take 4 = image 4 h.length.toNat := by
    rw [bytes, ← List.append_assoc, List.append_assoc, List.drop_left' (by simp),
      List.take_left' (by simp)]
  simp only [ofBytes, h8, h2, h4, value_image (w := 8) h.sequenceNumber.toNat_lt,
    value_image (w := 2) h.flags.toNat_lt, value_image (w := 4) h.length.toNat_lt, UInt64.ofNat_toNat,
    UInt16.ofNat_toNat, UInt32.ofNat_toNat]

@[simp] theorem ofBytes_bytes (h : MsgHeader) : ofBytes h.bytes = h := by
  simpa using ofBytes_append h []

theorem bytes_ofBytes {bs : List UInt8} (hbs : bs.length = effectiveSize) :
    (ofBytes bs).bytes = bs := by
  have part : ∀ (n k : Nat), n + k ≤ 14 →
      image k (value ((bs.drop n).take k)) = (bs.drop n).take k := by
    intro n k hk
    have hlen : ((bs.drop n).take k).length = k := by
      simp only [List.length_take, List.length_drop, hbs, effectiveSize]
      omega
    have h := image_value ((bs.drop n).take k)
    rwa [hlen] at h
  have lt : ∀ (n k : Nat), value ((bs.drop n).take k) < 256 ^ k := by
    intro n k
    apply Nat.lt_of_lt_of_le (value_lt _)
    exact Nat.pow_le_pow_right (by omega) (by simp)
  have h8 : (ofBytes bs).sequenceNumber.toNat = value ((bs.drop 0).take 8) := by
    simpa [ofBytes] using Nat.mod_eq_of_lt (lt 0 8)
  have h2 : (ofBytes bs).flags.toNat = value ((bs.drop 8).take 2) := by
    simpa [ofBytes] using Nat.mod_eq_of_lt (lt 8 2)
  have h4 : (ofBytes bs).length.toNat = value ((bs.drop 10).take 4) := by
    simpa [ofBytes] using Nat.mod_eq_of_lt (lt 10 4)
  rw [bytes, h8, h2, h4, part 0 8 (by omega), part 8 2 (by omega), part 10 4 (by omega)]
  have e : (bs.drop 10).take 4 = bs.drop 10 := by
    apply List.take_of_length_le
    simp [hbs, effectiveSize]
  rw [e, List.drop_zero]
  have h10 : (bs.drop 8).take 2 ++ bs.drop 10 = bs.drop 8 := by
    simpa using List.take_append_drop 2 (bs.drop 8)
  rw [h10, List.take_append_drop]

end MsgHeader

/-- `class Message` as the parser uses it: the address its header and data are read from. -/
structure Message where
  addr : Int
  deriving DecidableEq, Repr

namespace Message

def setBuf (_ : Message) (addr : Int) : Message := ⟨addr⟩

def getHeader (msg : Message) (m : Mem) : MsgHeader :=
  MsgHeader.ofBytes (load m msg.addr effectiveSize)

def setHeader (msg : Message) (m : Mem) (h : MsgHeader) : Mem := store m msg.addr h.bytes

def getData (msg : Message) : Int := msg.addr + effectiveSize

def setHeaderToHost (msg : Message) (m : Mem) : Mem := msg.setHeader m (msg.getHeader m).ntoh

def setHeaderToNetwork (msg : Message) (m : Mem) : Mem := msg.setHeader m (msg.getHeader m).hton

def setClient (msg : Message) (m : Mem) : Mem := msg.setHeader m (msg.getHeader m).setClient

def setServer (msg : Message) (m : Mem) : Mem := msg.setHeader m (msg.getHeader m).setServer

def getSequenceCounter (msg : Message) (m : Mem) : UInt64 := (msg.getHeader m).sequenceNumber

/-- The 32-bit length field read as a signed `int`. -/
def getLength (msg : Message) (m : Mem) : Int :=
  if (msg.getHeader m).length.toNat < 2 ^ 31 then (msg.getHeader m).length.toNat
  else (msg.getHeader m).length.toNat - 2 ^ 32

/-- The comparison is made on `unsigned`, so only the upper bound is checked. -/
def isValidHeader (msMaxSize : Int) (msg : Message) (m : Mem) : Bool :=
  msg.getLength m % 2 ^ 32 ≤ msMaxSize % 2 ^ 32

section Accessors
variable (msg : Message) (m : Mem) (h : MsgHeader)

@[simp] theorem setBuf_addr (a : Int) : (msg.setBuf a).addr = a := rfl

@[simp] theorem getHeader_setHeader : msg.getHeader (msg.setHeader m h) = h := by
  rw [getHeader, setHeader, load_store_same' (by simp), MsgHeader.ofBytes_bytes]

theorem setHeader_outside {x : Int} (hx : x < msg.addr ∨ msg.addr + 14 ≤ x) :
    msg.setHeader m h x = m x := store_outside (by simp [effectiveSize]; omega)

@[simp] theorem setHeader_setHeader (h' : MsgHeader) :
    msg.setHeader (msg.setHeader m h) h' = msg.setHeader m h' := by
  funext x
  by_cases hx : x < msg.addr ∨ msg.addr + 14 ≤ x
  · simp only [setHeader_outside _ _ _ hx]
  · simp only [setHeader, store, MsgHeader.bytes_length, effectiveSize]
    rw [if_pos (by omega), if_pos (by omega)]

@[simp] theorem setHeader_getHeader : msg.setHeader m (msg.getHeader m) = m := by
  funext x
  by_cases hx : x < msg.addr ∨ msg.addr + 14 ≤ x
  · exact setHeader_outside _ _ _ hx
  · have hb : (msg.getHeader m).bytes = load m msg.addr effectiveSize :=
      MsgHeader.bytes_ofBytes (by simp)
    have hi : (x - msg.addr).toNat < effectiveSize := by
      unfold effectiveSize
      omega
    simp only [setHeader, hb, store, load_length, load_getElem? hi]
    rw [if_pos (by unfold effectiveSize; omega), Option.getD_some]
    congr 1
    omega

theorem getLength_eq {msMaxSize : Int} (h31 : msMaxSize < 2 ^ 31)
    (h : ((msg.getHeader m).length.toNat : Int) ≤ msMaxSize) :
    msg.getLength m = (msg.getHeader m).length.toNat := by
  unfold getLength
  exact if_pos (by omega)

theorem isValidHeader_iff {msMaxSize : Int} (h0 : 0 ≤ msMaxSize) (h31 : msMaxSize < 2 ^ 31) :
    msg.isValidHeader msMaxSize m = true ↔ ((msg.getHeader m).length.toNat : Int) ≤ msMaxSize := by
  have hlt := (msg.getHeader m).length.toNat_lt
  have hmod : msg.getLength m % 2 ^ 32 = (msg.getHeader m).length.toNat := by
    unfold getLength
    split <;> omega
  rw [isValidHeader, decide_eq_true_eq, hmod, Int.emod_eq_of_lt h0 (by omega)]

end Accessors

end Message

/-- What a message shows to its handler: the header in host order and the body. -/
structure MessageView where
  header : MsgHeader
  body : List UInt8
  deriving DecidableEq, Repr

/-- The message a handler finds at `msg`. An oversized message has no readable body. -/
def Message.view (msMaxSize : Int) (msg : Message) (m : Mem) : MessageView :=
  ⟨msg.getHeader m, if msg.isValidHeader msMaxSize m then
    load m msg.getData ((msg.getHeader m).length.toNat - effectiveSize) else []⟩

/-- A well-formed message: the length field counts the header and the body. -/
structure WireMessage where
  header : MsgHeader
  body : List UInt8
  length_eq : header.length.toNat = effectiveSize + body.length

namespace WireMessage

/-- The bytes on the wire: the header in network order, then the body. -/
def encode (w : WireMessage) : List UInt8 := w.header.hton.bytes ++ w.body

def hostBytes (w : WireMessage) : List UInt8 := w.header.bytes ++ w.body

def view (w : WireMessage) : MessageView := ⟨w.header, w.body⟩

def size (w : WireMessage) : Nat := w.header.length.toNat

theorem size_eq (w : WireMessage) : w.size = 14 + w.body.length := w.length_eq

@[simp] theorem encode_length (w : WireMessage) : w.encode.length = w.size := by
  simp [encode, size, w.length_eq]

@[simp] theorem hostBytes_length (w : WireMessage) : w.hostBytes.length = w.size := by
  simp [hostBytes, size, w.length_eq]

end WireMessage

theorem header_of_view {msMaxSize : Int} {m : Mem} {msg : Message} {w : WireMessage}
    (hw : msg.view msMaxSize m = w.view) : msg.getHeader m = w.header := by
  have h := congrArg MessageView.header hw
  simpa only [Message.view, WireMessage.view] using h

/-- A stream of whole messages. -/
def encodeAll (ws : List WireMessage) : List UInt8 := ws.flatMap WireMessage.encode

@[simp] theorem encodeAll_nil : encodeAll [] = [] := rfl

@[simp] theorem encodeAll_cons (w : WireMessage) (ws : List WireMessage) :
    encodeAll (w :: ws) = w.encode ++ encodeAll ws := rfl

@[simp] theorem encodeAll_append (ws vs : List WireMessage) :
    encodeAll (ws ++ vs) = encodeAll ws ++ encodeAll vs := List.flatMap_append

end Sockperf
