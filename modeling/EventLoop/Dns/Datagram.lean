import EventLoop.Dns.Reply

/-!
Which bytes `__dns_lookup_async` and its caller read of a reply. Counts, label lengths, pointers
and `rdlength` take them from place to place, and none of the functions is told how long the
datagram is: they read within the datagram exactly if all those places lie in it.
-/

namespace EventLoop.Dns

open Iteration Relation

/-- The rdata is copied to `buf`. -/
def copies (type : Nat) (s : Answers) (ma : Answer) : Bool :=
  !s.firstAnswer && ma.atype = type && s.a.rdlength = ma.rdlength

variable {data : Memory} {len type ancount fuel more turns count pos offset : Nat} {s : Answers}

theorem lengthQuestion_mono {i : Nat} (h : lengthQuestion data pos fuel = some i)
    (hle : fuel ≤ more) : lengthQuestion data pos more = some i := by
  obtain ⟨length, hlength, hi⟩ := Option.map_eq_some_iff.mp h
  obtain ⟨stop, hstop, hlength⟩ := Option.map_eq_some_iff.mp hlength
  refine Option.map_eq_some_iff.mpr ⟨length, ?_, hi⟩
  exact Option.map_eq_some_iff.mpr ⟨stop, iterate_mono hstop hle, hlength⟩

theorem skipQuestions_mono {pos' : Nat} (h : skipQuestions data fuel count pos = some pos')
    (hle : fuel ≤ more) : skipQuestions data more count pos = some pos' := by
  induction count generalizing pos with
  | zero => exact h
  | succ count ih =>
      obtain ⟨i, hi, hrest⟩ := Option.bind_eq_some_iff.mp h
      exact Option.bind_eq_some_iff.mpr ⟨i, lengthQuestion_mono hi hle, ih hrest⟩

end EventLoop.Dns
