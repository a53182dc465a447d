import EventLoop.Timer.Watchdog

/-!
The time left and the time elapsed, as `GetTimeLeft` and `GetTimeElapsed` of `eloop.c` take them.
Both test by the microseconds alone whether the one time is behind the other only where the second
is not positive; and `GetTimeElapsed` borrows 2^32 microseconds and takes the one it owes from the
microseconds. The hardware watchdog is restarted with the time left, the seconds as an `int`.
-/

namespace EventLoop

variable {now t : OsTime} {sec usec micros : Int}

end EventLoop

namespace EventLoop.WatchdogTimer

variable {curtime : OsTime} {timeout : EloopTimeout} {list next : List EloopTimeout}
  {w : WdtState} {s s' : Eloop} {action : Action} {handlerForWDT : Ptr}

end EventLoop.WatchdogTimer
