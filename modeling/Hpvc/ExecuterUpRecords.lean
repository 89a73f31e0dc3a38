import Hpvc.ExecuterJourney

/-! Which of a VM's records say that it is up. The source of a teleport marks the record it
found; when the VM is only started for the teleport, it looks for a record before there is
one, and the new one is never marked. -/
namespace Hpvc.Executer

end Hpvc.Executer
