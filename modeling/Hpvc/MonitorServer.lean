import Hpvc.Library.Runs
import Mathlib.Algebra.Ring.Int.Defs
import Mathlib.Data.Rat.Defs

/-! The host table of the monitor server: `set_host_utility` looks a report's host up by
its ip, and appends the report or smooths it into the entry. Strings that a message
leaves out are null pointers. Float fields are exact rationals; that the copies of
strings are one byte short is not seen here. -/
namespace Hpvc.Monitor

def averageRate : Int := 9

structure MachineMetric where
  ip : Option String
  uuid : Option String
  cpu : Nat
  cpuLoadUsage : ℚ
  ram : Nat
  ramUsageTotalAverage : Int

structure HostMetric where
  ip : Option String
  cpu : Nat
  corePerCpu : Int
  cpuLoadUsage : ℚ
  ram : Nat
  ramUsageTotalAverage : Int
  machines : List MachineMetric

/-- What ends the server: a null string is read, an array of machines is read or written
past its end, or the sum for an integer average leaves `int`. -/
inductive Fault where
  | nullString | pastArray | overflow
  deriving DecidableEq

/-- `strcmp(a, b) == 0` -/
def strEq : Option String → Option String → Except Fault Bool
  | some a, some b => .ok (a == b)
  | _, _ => .error .nullString

/-- The position of the first element whose string is `text`; the comparison stops there. -/
def searchString (field : α → Option String) (text : Option String) :
    List α → Except Fault (Option Nat)
  | [] => .ok none
  | x :: rest => do
    if ← strEq (field x) text then return some 0
    return (← searchString field text rest).map (· + 1)

/-- The linked list of hosts is a list here, in its order. -/
def findHost (hosts : List HostMetric) (ip : Option String) : Except Fault (Option Nat) :=
  searchString HostMetric.ip ip hosts

def IsInt (z : Int) : Prop := -2 ^ 31 ≤ z ∧ z < 2 ^ 31

instance (z : Int) : Decidable (IsInt z) := inferInstanceAs (Decidable (_ ∧ _))

/-- `((AVERAGE_RATE-1)*new + old) / AVERAGE_RATE` -/
def smooth (old new : ℚ) : ℚ := ((averageRate - 1 : Int) * new + old) / (averageRate : Int)

def smoothInt (old new : Int) : Int := ((averageRate - 1) * new + old).tdiv averageRate

def checkedSmoothInt (old new : Int) : Except Fault Int :=
  if IsInt ((averageRate - 1) * new) ∧ IsInt ((averageRate - 1) * new + old) then .ok (smoothInt old new)
  else .error .overflow

/-- A machine that was found. Its old ip is freed, and the new one copied. -/
def updateMachine (old new : MachineMetric) : Except Fault MachineMetric := do
  let ramUsage ← checkedSmoothInt old.ramUsageTotalAverage new.ramUsageTotalAverage
  match new.ip with
  | none => throw .nullString
  | some ip => return { old with
      cpuLoadUsage := smooth old.cpuLoadUsage new.cpuLoadUsage
      ramUsageTotalAverage := ramUsage
      cpu := new.cpu
      ram := new.ram
      ip := some ip }

/-- One machine of a report. For a machine that is not found a larger array is made, but
the new machine is written to the old one. For one that is found, its index among the
stored machines is also the index of what is read from the report. -/
def updateMachines (reported machines : List MachineMetric) (new : MachineMetric) :
    Except Fault (List MachineMetric) := do
  match ← searchString MachineMetric.uuid new.uuid machines with
  | none => throw .pastArray
  | some j =>
    match machines[j]?, reported[j]? with
    | some old, some own => return machines.set j (← updateMachine old own)
    | _, _ => throw .pastArray

/-- The branch for a host that exists. -/
def updateHost (old new : HostMetric) : Except Fault HostMetric := do
  let ramUsage ← checkedSmoothInt old.ramUsageTotalAverage new.ramUsageTotalAverage
  let machines ← new.machines.foldlM (updateMachines new.machines) old.machines
  return {
    ip := new.ip
    cpu := new.cpu
    ram := new.ram
    corePerCpu := new.corePerCpu
    cpuLoadUsage := smooth old.cpuLoadUsage new.cpuLoadUsage
    ramUsageTotalAverage := ramUsage
    machines := machines }

/-- `set_host_utility`, on a message that was unpacked or not. -/
def setHostUtility (hosts : List HostMetric) : Option HostMetric → Except Fault (List HostMetric)
  | none => .ok hosts
  | some report => do
    match ← findHost hosts report.ip with
    | none => return hosts ++ [report]
    | some k =>
      match hosts[k]? with
      | none => return hosts
      | some old => return hosts.set k (← updateHost old report)

/-- The server's loop as a machine over the messages it takes from the socket. -/
def step (hosts : List HostMetric) (msg : Option HostMetric) : Option (List HostMetric) :=
  (setHostUtility hosts msg).toOption

end Hpvc.Monitor
