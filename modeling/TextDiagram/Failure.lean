import TextDiagram.EmptyReason

/-!
# Failures

What can stop a run: a file that cannot be read or written, a source that is not accepted, a bad
configuration, or a graph that cannot be exported. A text from which nothing can be read is no
failure.
-/

namespace TextDiagram

/-- Why a file cannot be read or written. -/
inductive FileError where
  | notFound
  | notADirectory
  | isADirectory
  | notText
  | other (message : String)
  deriving DecidableEq, Repr

def FileError.message : FileError → String
  | notFound => "No such file or directory (os error 2)"
  | notADirectory => "Not a directory (os error 20)"
  | isADirectory => "Is a directory (os error 21)"
  | notText => "stream did not contain valid UTF-8"
  | other message => message

/-- What is wrong with a configuration. -/
inductive ConfigError where
  | malformed
  | missingFile (path : String)
  | other (message : String)
  deriving DecidableEq, Repr

def ConfigError.message : ConfigError → String
  | malformed => "Failed to parse TOML configuration"
  | missingFile path => "Missing configuration file: " ++ path
  | other message => message

inductive Failure where
  | sourceRead (path : String) (cause : FileError)
  | unsupportedExtension (path : String)
  | sourceTooLarge (size limit : Nat)
  | file (cause : FileError)
  | config (error : ConfigError)
  | serialization (message : String)
  deriving DecidableEq, Repr

namespace Failure

def code : Failure → String
  | sourceRead .. => "diagrammar::source_read"
  | unsupportedExtension _ => "diagrammar::unsupported_extension"
  | sourceTooLarge .. => "diagrammar::source_too_large"
  | file _ => "diagrammar::io"
  | config _ => "diagrammar::config"
  | serialization _ => "diagrammar::export"

def message : Failure → String
  | sourceRead path cause => "failed to read `" ++ path ++ "`: " ++ cause.message
  | unsupportedExtension path => "`" ++ path ++ "` does not have a supported diagram extension"
  | sourceTooLarge size limit =>
    "source is " ++ size.repr ++ " bytes, over the " ++ limit.repr ++ " byte limit"
  | file cause => "I/O error: " ++ cause.message
  | config error => "Configuration error: " ++ error.message
  | serialization message => "Export error: Serialization error: " ++ message

def help? : Failure → Option String
  | sourceRead .. => some "check that the file exists and is readable"
  | unsupportedExtension _ => some "rename the file or add its extension to `parser.extensions`"
  | sourceTooLarge .. => some "raise `parser.max_source_bytes` in the config"
  | config _ => some "check the configuration file syntax"
  | file _ | serialization _ => none

/-- The error of a file that lies behind a failure. -/
def cause? : Failure → Option FileError
  | sourceRead _ cause => some cause
  | file cause => some cause
  | _ => none

end Failure

end TextDiagram
