import EnvValues.Shell.Posix.Numeral

/-!
# Signals

The signals a process can get: their numbers and names, and which of them end it.
-/

namespace EnvValues
namespace Posix
namespace Signal

/-- The names of signals that have one of their own, from number one on. Number zero is
the end of the process. -/
def named : List (Nat × String) :=
  [(0, "EXIT"), (1, "HUP"), (2, "INT"), (3, "QUIT"), (4, "ILL"), (5, "TRAP"), (6, "ABRT"),
   (7, "BUS"), (8, "FPE"), (9, "KILL"), (10, "USR1"), (11, "SEGV"), (12, "USR2"), (13, "PIPE"),
   (14, "ALRM"), (15, "TERM"), (17, "CHLD"), (18, "CONT"), (19, "STOP"), (20, "TSTP"),
   (21, "TTIN"), (22, "TTOU"), (23, "URG"), (24, "XCPU"), (25, "XFSZ"), (26, "VTALRM"),
   (27, "PROF"), (28, "WINCH"), (29, "IO"), (30, "PWR"), (31, "SYS"), (34, "RTMIN"),
   (64, "RTMAX")]

/-- The number of signals, with number zero. -/
def count : Nat := 65

/-- The name of a signal. -/
def name (n : Nat) : Text :=
  match named.lookup n with
  | some s => s.toList
  | none =>
    if 35 ≤ n && n ≤ 49 then "RTMIN+".toList ++ Numeral.decimal (n - 34)
    else if 50 ≤ n && n ≤ 63 then "RTMAX-".toList ++ Numeral.decimal (64 - n)
    else Numeral.decimal n

/-- The signal of a number. -/
def ofNumber? (t : Text) : Option Nat :=
  match Numeral.digits? 10 t with
  | some (n, []) => if n < count then some n else none
  | _ => none

/-- The signal of a number, or of a name in letters of either case, of those from `least`
on. -/
def ofText? (least : Nat) (t : Text) : Option Nat :=
  let t := t.map Char.toUpper
  (ofNumber? t).or (((List.range count).drop least).find? fun n => name n = t)

/-- What is said of a process that a signal ended. -/
def description (n : Nat) : String :=
  match n with
  | 1 => "Hangup"
  | 3 => "Quit"
  | 4 => "Illegal instruction"
  | 5 => "Trace/breakpoint trap"
  | 6 => "Aborted"
  | 7 => "Bus error"
  | 8 => "Floating point exception"
  | 9 => "Killed"
  | 10 => "User defined signal 1"
  | 11 => "Segmentation fault"
  | 12 => "User defined signal 2"
  | 14 => "Alarm clock"
  | 15 => "Terminated"
  | 16 => "Stack fault"
  | 24 => "CPU time limit exceeded"
  | 25 => "File size limit exceeded"
  | 26 => "Virtual timer expired"
  | 27 => "Profiling timer expired"
  | 29 => "I/O possible"
  | 30 => "Power failure"
  | 31 => "Bad system call"
  | n => if 34 ≤ n then s!"Real-time signal {n - 34}" else "Unknown signal"

/-- Nothing is said of these. -/
def isQuiet (n : Nat) : Bool := n = 2 || n = 13

/-- The signals that end no process. -/
def isHarmless (n : Nat) : Bool := [17, 18, 19, 20, 21, 22, 23, 28].contains n

/-- The signals that no process can choose to take otherwise. -/
def isFinal (n : Nat) : Bool := n = 9 || n = 19

end Signal
end Posix
end EnvValues
