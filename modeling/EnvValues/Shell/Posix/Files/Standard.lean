import EnvValues.Shell.Posix.Files

/-!
# The files of a system

The directories, devices and programs that commands find on every system, and the few
texts that say who its users are.
-/

namespace EnvValues
namespace Posix
namespace Standard

/-- The directories. -/
def directories : List String :=
  ["/", "/boot", "/dev", "/dev/shm", "/etc", "/home", "/media", "/mnt", "/opt", "/proc",
   "/proc/self", "/proc/self/fd", "/root", "/run", "/srv", "/sys", "/tmp", "/usr", "/usr/bin",
   "/usr/games", "/usr/include", "/usr/lib", "/usr/lib64", "/usr/local", "/usr/local/bin",
   "/usr/local/lib", "/usr/local/sbin", "/usr/local/share", "/usr/sbin", "/usr/share", "/usr/src",
   "/var", "/var/cache", "/var/lib", "/var/log", "/var/mail", "/var/spool", "/var/tmp"]

/-- The directories in which everybody may make files. -/
def sharedDirectories : List String := ["/dev/shm", "/tmp", "/var/tmp"]

/-- The links, and what they lead to. -/
def links : List (String × String) :=
  [("/bin", "usr/bin"), ("/sbin", "usr/sbin"), ("/lib", "usr/lib"), ("/lib64", "usr/lib64"),
   ("/dev/fd", "/proc/self/fd"), ("/dev/stdin", "/proc/self/fd/0"),
   ("/dev/stdout", "/proc/self/fd/1"), ("/dev/stderr", "/proc/self/fd/2"),
   ("/var/run", "/run"), ("/var/lock", "/run/lock"), ("/usr/bin/sh", "dash")]

/-- The devices. -/
def devices : List (String × Device) :=
  [("/dev/null", .null), ("/dev/zero", .zero), ("/dev/full", .full), ("/dev/tty", .terminal)]

/-- The users, and their home directories. -/
def users : List (String × String) :=
  [("root", "/root"), ("daemon", "/usr/sbin"), ("bin", "/bin"), ("sys", "/dev"), ("sync", "/bin"),
   ("games", "/usr/games"), ("man", "/var/cache/man"), ("lp", "/var/spool/lpd"),
   ("mail", "/var/mail"), ("news", "/var/spool/news"), ("uucp", "/var/spool/uucp"),
   ("proxy", "/bin"), ("www-data", "/var/www"), ("backup", "/var/backups"), ("list", "/var/list"),
   ("irc", "/run/ircd"), ("_apt", "/nonexistent"), ("nobody", "/nonexistent")]

/-- The home directory of a user. -/
def home? (name : Text) : Option Text :=
  (users.lookup (String.ofList name)).map String.toList

/-- The lines of texts. -/
def texts : List (String × List String) :=
  [("/etc/passwd",
    ["root:x:0:0:root:/root:/bin/bash",
     "daemon:x:1:1:daemon:/usr/sbin:/usr/sbin/nologin",
     "bin:x:2:2:bin:/bin:/usr/sbin/nologin",
     "sys:x:3:3:sys:/dev:/usr/sbin/nologin",
     "sync:x:4:65534:sync:/bin:/bin/sync",
     "games:x:5:60:games:/usr/games:/usr/sbin/nologin",
     "man:x:6:12:man:/var/cache/man:/usr/sbin/nologin",
     "lp:x:7:7:lp:/var/spool/lpd:/usr/sbin/nologin",
     "mail:x:8:8:mail:/var/mail:/usr/sbin/nologin",
     "news:x:9:9:news:/var/spool/news:/usr/sbin/nologin",
     "uucp:x:10:10:uucp:/var/spool/uucp:/usr/sbin/nologin",
     "proxy:x:13:13:proxy:/bin:/usr/sbin/nologin",
     "www-data:x:33:33:www-data:/var/www:/usr/sbin/nologin",
     "backup:x:34:34:backup:/var/backups:/usr/sbin/nologin",
     "list:x:38:38:Mailing List Manager:/var/list:/usr/sbin/nologin",
     "irc:x:39:39:ircd:/run/ircd:/usr/sbin/nologin",
     "_apt:x:42:65534::/nonexistent:/usr/sbin/nologin",
     "nobody:x:65534:65534:nobody:/nonexistent:/usr/sbin/nologin"]),
   ("/etc/group", ["root:x:0:", "daemon:x:1:", "bin:x:2:", "sys:x:3:", "adm:x:4:", "tty:x:5:"]),
   ("/etc/hostname", ["localhost"]),
   ("/etc/hosts", ["127.0.0.1\tlocalhost"]),
   ("/etc/fstab", []),
   ("/etc/profile", []),
   ("/etc/shells", ["/bin/sh", "/usr/bin/sh", "/bin/dash", "/usr/bin/dash"])]

/-- The files of a system on which these programs are installed. -/
def files (programs : List String) : Files :=
  let entry (path : String) (kind : FileKind) (mode : Nat) : Text × File :=
    (path.toList, ⟨kind, mode⟩)
  Assignment.ofList
    (directories.map (fun d =>
        entry d .directory (if sharedDirectories.contains d then 0o1777 else 0o755)) ++
     links.map (fun (p, t) => entry p (.link t.toList) 0o777) ++
     devices.map (fun (p, d) => entry p (.device d) 0o666) ++
     texts.map (fun (p, ls) =>
       entry p (.regular (ls.flatMap fun l => l.toList ++ ['\n'])) 0o644) ++
     (List.range 10).map (fun n => entry s!"/proc/self/fd/{n}" (.descriptor n) 0o700) ++
     programs.map fun n => entry ("/usr/bin/" ++ n) (.program n.toList) 0o755)

end Standard
end Posix
end EnvValues
