import CppGuard.DeadlockMonitor.Errors
import CppGuard.DeadlockMonitor.Watchdog

/-!
# The summary at the end of the process

`~loader_t` fails the process if one of the flags of the monitor is set. Every report sets the
flag of its kind, except for a lock that is deleted while its thread holds it: that report is
counted only if another one has set the flag.
-/
namespace CppGuard
open Transition DeadlockMonitor

namespace DeadlockMonitor

end DeadlockMonitor

namespace Core

variable {maxLocks now : Nat} {s s' : Core} {t : ThreadId} {hook : Hook}

end Core

namespace Config

variable {maxLocks : Nat} {c c' : Config} {task : Task}

end Config
end CppGuard
