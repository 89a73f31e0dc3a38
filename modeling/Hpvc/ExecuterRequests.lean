import Hpvc.Library.Wire
import Mathlib.Algebra.Group.Nat.Defs

/-! The requests of `oe.proto` from the organizer to the executer. `main` unpacks the frame of a
request and forwards a teleport to `comm_actor` as a C string, which ends at its first zero. -/
namespace Hpvc.Executer.Oe

open Wire

/-- `OEMsg.Type` -/
inductive MsgType where
  | teleport | start
  deriving DecidableEq

structure Teleport where
  vmName : List UInt8
  targetIp : List UInt8
  deriving DecidableEq

structure Start where
  vmName : List UInt8
  deriving DecidableEq

structure OEMsg where
  type : MsgType
  teleport : Option Teleport
  start : Option Start
  deriving DecidableEq

def MsgType.number : MsgType → Nat
  | .teleport => 1
  | .start => 2

def MsgType.ofNumber : Nat → Option MsgType
  | 1 => some .teleport
  | 2 => some .start
  | _ => none

def Teleport.pack (m : Teleport) : List UInt8 := encode [⟨1, .bytes m.vmName⟩, ⟨2, .bytes m.targetIp⟩]

def Start.pack (m : Start) : List UInt8 := encode [⟨1, .bytes m.vmName⟩]

/-- `oemsg__pack`: the fields that are set, in the order of their tags. -/
def OEMsg.pack (m : OEMsg) : List UInt8 :=
  encode (⟨1, .number m.type.number⟩ :: (m.teleport.map fun t => ⟨2, .bytes t.pack⟩).toList ++
    (m.start.map fun t => ⟨3, .bytes t.pack⟩).toList)

/-- Required strings; the last one counts. -/
def Teleport.unpack (content : List UInt8) : Option Teleport :=
  (decode content).bind fun fields =>
    (contents 1 fields).getLast?.bind fun vmName =>
      (contents 2 fields).getLast?.map fun targetIp => ⟨vmName, targetIp⟩

def Start.unpack (content : List UInt8) : Option Start :=
  (decode content).bind fun fields => (contents 1 fields).getLast?.map fun vmName => ⟨vmName⟩

/-- An optional message. Where it is there more than once, it is merged. -/
def embedded (unpack : List UInt8 → Option α) : List (List UInt8) → Option (Option α)
  | [] => some none
  | found => (unpack found.flatten).map some

/-- `oemsg__unpack` -/
def OEMsg.unpack (input : List UInt8) : Option OEMsg :=
  (decode input).bind fun fields =>
    ((numbers 1 fields).filterMap MsgType.ofNumber).getLast?.bind fun type =>
      (embedded Teleport.unpack (contents 2 fields)).bind fun teleport =>
        (embedded Start.unpack (contents 3 fields)).map fun start => ⟨type, teleport, start⟩

/-- The bytes of a C string: up to the first zero. -/
def cString (memory : List UInt8) : List UInt8 := memory.takeWhile (· != 0)

/-- A length assigned to an `int`. -/
def toCInt (len : Nat) : Int := Int.bmod len (2 ^ 32)

/-- `oemsg__unpack(NULL, len, smsg)`: an `int` below zero is a length past the end of the message. -/
def unpackInt (len : Int) (smsg : List UInt8) : Option OEMsg :=
  if len < 0 then none else OEMsg.unpack (smsg.take len.toNat)

/-- `main`: what goes to `comm_actor` for a frame and the bytes after it in memory. -/
def forwarded (frame after : List UInt8) : Option (List UInt8) :=
  (unpackInt (toCInt frame.length) (frame ++ after)).bind fun oem =>
    if oem.type = .teleport then some (cString (frame ++ after)) else none

/-- `comm_actor`: `zmsg_popstr` ends what it received with a zero. -/
def requestOf (message : List UInt8) : Option OEMsg :=
  unpackInt (toCInt (cString (message ++ [0])).length) (message ++ [0])

/-- What the organizer fills in for "teleport". -/
def teleportRequest (vmName targetIp : List UInt8) : OEMsg := ⟨.teleport, some ⟨vmName, targetIp⟩, none⟩

theorem unpack_teleport (m : Teleport) : Teleport.unpack m.pack = some m := by
  rw [Teleport.unpack,Teleport.pack,decode_encode]
  rfl

theorem unpack_start (m : Start) : Start.unpack m.pack = some m := by
  rw [Start.unpack,Start.pack,decode_encode]
  rfl

theorem ofNumber_number (type : MsgType) : MsgType.ofNumber type.number = some type := by
  cases type <;> rfl

/-- What was packed is unpacked, whatever is set. -/
theorem unpack_pack (m : OEMsg) : OEMsg.unpack m.pack = some m := by
  obtain ⟨type, teleport, start⟩ := m
  rw [OEMsg.unpack,OEMsg.pack,decode_encode]
  cases teleport <;> cases start <;>
    simp [numbers,contents,embedded,ofNumber_number,unpack_teleport,unpack_start]

/-- A teleport request has a zero byte only where one of its strings has one or is empty. -/
theorem zero_mem_teleportRequest (vmName targetIp : List UInt8) :
    0 ∈ (teleportRequest vmName targetIp).pack ↔
      (vmName = [] ∨ 0 ∈ vmName) ∨ targetIp = [] ∨ 0 ∈ targetIp := by
  have type : 0 ∉ (⟨1, .number MsgType.teleport.number⟩ : Field).encode := by
    rw [zero_mem_field (by decide),Value.encode,zero_mem_varint]
    decide
  have inner : 0 ∈ Teleport.pack ⟨vmName, targetIp⟩ ↔
      (vmName = [] ∨ 0 ∈ vmName) ∨ targetIp = [] ∨ 0 ∈ targetIp := by
    simp only [Teleport.pack,encode,List.flatMap_cons,List.flatMap_nil,List.append_nil,List.mem_append]
    rw [zero_mem_field (by decide),zero_mem_field (by decide),zero_mem_bytes,zero_mem_bytes]
  have set : Teleport.pack ⟨vmName, targetIp⟩ ≠ [] :=
    List.append_ne_nil_of_left_ne_nil (encode_ne_nil _) _
  simp only [OEMsg.pack,teleportRequest,Option.map_some,Option.map_none,Option.toList_some,Option.toList_none,
    List.append_nil,encode_cons,List.mem_append,or_iff_right type]
  rw [zero_mem_field (by decide),zero_mem_bytes,or_iff_right set,inner]
  simp [encode]

theorem cString_append {text : List UInt8} (no_zero : 0 ∉ text) (after : List UInt8) :
    cString (text ++ 0 :: after) = text := by
  have all : ∀ byte ∈ text, (byte != 0) = true := by
    intro byte member
    rw [bne_iff_ne]
    rintro rfl
    exact no_zero member
  rw [cString,List.takeWhile_append_of_pos all]
  simp

/-- Below 2^31, the `int` is the length. -/
theorem toCInt_small {len : Nat} (short : len < 2 ^ 31) : toCInt len = len :=
  Int.bmod_eq_of_le (by omega) (by omega)

theorem unpackInt_append {text : List UInt8} (short : text.length < 2 ^ 31) (after : List UInt8) :
    unpackInt (toCInt text.length) (text ++ after) = OEMsg.unpack text := by
  rw [toCInt_small short,unpackInt,if_neg (Int.not_lt.mpr (Int.natCast_nonneg _)),Int.toNat_natCast,
    List.take_left]

/-- A teleport request for a VM and a target, neither of them empty nor with a zero byte, has no
zero byte. So it is the C string that is forwarded, and this unpacks to the request; as the
messages of the format are shorter than 2^31 bytes, so are the lengths that `main` and
`comm_actor` keep in an `int`. -/
theorem teleport_request_survives {vmName targetIp : List UInt8} (named : vmName ≠ []) (name : 0 ∉ vmName)
    (targeted : targetIp ≠ []) (target : 0 ∉ targetIp) (after : List UInt8) :
    let packed := (teleportRequest vmName targetIp).pack
    0 ∉ packed ∧ cString (packed ++ 0 :: after) = packed ∧
      OEMsg.unpack (cString (packed ++ 0 :: after)) = some ⟨.teleport, some ⟨vmName, targetIp⟩, none⟩ ∧
      (packed.length < 2 ^ 31 → forwarded packed (0 :: after) = some packed ∧
        requestOf packed = some ⟨.teleport, some ⟨vmName, targetIp⟩, none⟩) := by
  intro packed
  have no_zero : 0 ∉ packed := by
    rw [zero_mem_teleportRequest]
    simp [named,name,targeted,target]
  have string (more : List UInt8) : cString (packed ++ 0 :: more) = packed := cString_append no_zero more
  have unpacked : OEMsg.unpack packed = some (teleportRequest vmName targetIp) := unpack_pack _
  refine ⟨no_zero, string after, ?_, fun short => ⟨?_, ?_⟩⟩
  · rw [string]
    exact unpacked
  · rw [forwarded,unpackInt_append short,unpacked,string]
    rfl
  · rw [requestOf,string,unpackInt_append short]
    exact unpacked

/-- "vm" to "10.0.0.2" -/
theorem teleport_request_survives_vm :
    0 ∉ (teleportRequest [118, 109] [49, 48, 46, 48, 46, 48, 46, 50]).pack :=
  (teleport_request_survives (by decide) (by decide) (by decide) (by decide) []).1

end Hpvc.Executer.Oe
